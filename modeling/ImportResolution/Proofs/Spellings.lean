import ImportResolution.Proofs.Fallbacks
import ImportResolution.Proofs.Links

/-! Importers under several spellings. Keys of a request that normalize to one path are entered one
after the other, and the relations of the path are what came of the last of them; so no specifier is
lost under a key that no later one spells again. -/
namespace ImportResolution

-- No text is computed here, and no unifier should try to.
attribute [local irreducible] String.toList

/-- Keys that are read are paths of the repository. -/
theorem Imports.isInside_of_parse {content : String} {imports : Table (List String)}
    (h : parse content = .ok imports) :
    ∀ key ∈ imports.keys, Path.isInside (Path.normalize key) = true := by
  unfold parse at h
  split at h
  · cases h
  · split at h
    · cases h
    · next t _ hn =>
      obtain rfl := Except.ok.inj h
      simpa using List.find?_eq_none.mp hn

/-- The relations of an importer hold all that is asked under one of its keys: the specifiers, and the
file or the name that each of them is found to lead to. -/
structure FileRelations.Holds (r : FileRelations) (importer : String) (raws : List String)
    (found : List Run.Settled) : Prop where
  imports : ∀ raw ∈ raws, Text.isAllBlank raw = false → raw ∈ r.imports
  settled : ∀ raw ∈ raws, Text.isAllBlank raw = false → Specifier.normalize raw ≠ "" →
    ∃ x ∈ found, x.query.importer.rel = importer ∧ x.query.raw = raw
  importLinks : ∀ x ∈ found, ∀ path, x.fate = .inside path → path ∈ r.importLinks
  externalImports : ∀ x ∈ found, x.fate = .outside → x.query.raw ∈ r.externalImports

namespace Run

theorem mem_specifiersOf {raw : String} {raws : List String} :
    raw ∈ specifiersOf raws ↔ raw ∈ raws ∧ Text.isAllBlank raw = false := by
  simp [specifiersOf]

/-- A record holds what it was made of. -/
theorem FileRecord.relations_holds {r : Rules} {x : FileRecord} {raws : List String}
    (hraws : x.raws = specifiersOf raws)
    (hq : x.settled.map (·.query) = queriesOf r (x.rel,raws)) :
    x.relations.Holds x.rel raws x.settled where
  imports := by
    intro raw hm hb
    rw [relations,hraws]
    exact mem_specifiersOf.mpr ⟨hm,hb⟩
  settled := by
    intro raw hm hb hn
    have hu : Query.of (Importer.of x.rel) (profileFor r x.rel (specifiersOf raws)) raw ∈
        x.settled.map (·.query) := by
      rw [hq]
      refine List.mem_map_of_mem (List.mem_filter.mpr ⟨mem_specifiersOf.mpr ⟨hm,hb⟩,?_⟩)
      simpa using hn
    obtain ⟨y,hy,he⟩ := List.mem_map.mp hu
    exact ⟨y,hy,by rw [he]; rfl,by rw [he]; rfl⟩
  importLinks := by
    intro y hy path hf
    rw [relations,Text.mem_distinctSorted]
    exact List.mem_filterMap.mpr ⟨y,hy,by rw [Settled.link?,hf]⟩
  externalImports := by
    intro y hy hf
    rw [relations,Text.mem_distinctSorted]
    exact List.mem_filterMap.mpr ⟨y,hy,by rw [Settled.external?,hf]⟩

namespace Request
variable (q : Request)

/-- The keys of a request with their specifiers, in the order in which their importers are entered. -/
def spellings : List (String × List String) :=
  sortByKey (fun e => Path.normalize e.1) (q.imports.entries.filter fun e => Path.normalize e.1 != "")

theorem importersOf_spellings :
    importersOf q.imports = q.spellings.map fun e => (Path.normalize e.1,e.2) := by
  unfold importersOf spellings
  rw [List.filter_map,map_sortByKey (g := Prod.fst) fun _ => rfl]
  rfl

/-- All that a run settles for the specifiers under one key. -/
def settledUnder (key : String) : List Settled :=
  (((q.spellings.map Prod.fst).zip (q.trace.map (·.settled))).lookup key).getD []

variable {q} {key : String} {raws : List String}

theorem mem_spellings :
    (key,raws) ∈ q.spellings ↔ (key,raws) ∈ q.imports.entries ∧ Path.normalize key ≠ "" := by
  simp [spellings]

/-- Of the keys with one path the greatest is entered last. -/
theorem exists_spellings_append (hm : (key,raws) ∈ q.imports.entries)
    (hne : Path.normalize key ≠ "")
    (hl : ∀ other ∈ q.imports.keys, Path.normalize other = Path.normalize key → other ≤ key) :
    ∃ before later, q.spellings = before ++ (key,raws) :: later ∧
      ∀ e ∈ later, Path.normalize e.1 ≠ Path.normalize key := by
  obtain ⟨before,later,hs⟩ := List.append_of_mem (mem_spellings.mpr ⟨hm,hne⟩)
  refine ⟨before,later,hs,fun e he hp => ?_⟩
  -- Keys with one path stand in the order of the map, in which they rise.
  have ho : ((q.spellings.filter (Path.normalize ·.1 == Path.normalize key)).map
      Prod.fst).Pairwise (· < ·) := by
    rw [spellings,filter_sortByKey]
    exact Table.ordered_filter _ (Table.ordered_filter _ q.imports.ordered)
  rw [hs,List.filter_append,List.filter_cons_of_pos (by simp),List.map_append,List.map_cons] at ho
  have hlt : key < e.1 := by
    refine (List.pairwise_cons.mp (List.pairwise_append.mp ho).2.1).1 e.1 ?_
    exact List.mem_map_of_mem (List.mem_filter.mpr ⟨he,by simpa using hp⟩)
  have hin : e ∈ q.imports.entries := by
    have : e ∈ q.spellings := by
      rw [hs]
      simp [he]
    exact (mem_spellings.mp this).1
  exact String.not_lt.mpr (hl e.1 (List.mem_map_of_mem hin) hp) hlt

/-- The record of a key stands where the key is entered. -/
theorem exists_trace_append {before later : List (String × List String)}
    (hs : q.spellings = before ++ (key,raws) :: later) :
    ∃ front x back, q.trace = front ++ x :: back ∧ front.length = before.length ∧
      x.rel = Path.normalize key ∧ x.raws = specifiersOf raws ∧
      x.settled.map (·.query) = queriesOf q.ruled (Path.normalize key,raws) ∧
      back.map (·.rel) = later.map fun e => Path.normalize e.1 := by
  have ht := q.trace_queries.1
  rw [importersOf_spellings,hs,List.map_map,List.map_append,List.map_cons] at ht
  obtain ⟨front,rest,htrace,hf,hr⟩ := List.map_eq_append_iff.mp ht
  obtain ⟨x,back,rfl,hx,hb⟩ := List.map_eq_cons_iff.mp hr
  simp only [Function.comp_apply,Prod.mk.injEq] at hx
  refine ⟨front,x,back,htrace,?_,hx.1,hx.2.1,hx.2.2,?_⟩
  · simpa using congrArg List.length hf
  · simpa [Function.comp_def] using congrArg (List.map Prod.fst) hb

theorem settledUnder_of_append {before later : List (String × List String)}
    (hs : q.spellings = before ++ (key,raws) :: later) {front back : List FileRecord}
    {x : FileRecord} (ht : q.trace = front ++ x :: back) (hf : front.length = before.length) :
    q.settledUnder key = x.settled := by
  have hlook : ((q.spellings.map Prod.fst).zip (q.trace.map (·.settled))).lookup key =
      some x.settled := by
    rw [List.lookup_eq_some_iff,hs,ht]
    simp only [List.map_append,List.map_cons]
    rw [List.zip_append (by simp [hf]),List.zip_cons_cons]
    refine ⟨_,_,rfl,?_⟩
    intro p hp
    have hn : (q.spellings.map Prod.fst).Nodup := by
      have hk : (q.spellings.map Prod.fst).Perm
          ((q.imports.entries.filter fun e => Path.normalize e.1 != "").map Prod.fst) :=
        (sortByKey_perm _).map Prod.fst
      refine hk.nodup_iff.mpr ?_
      exact (Table.ordered_filter _ q.imports.ordered).imp fun h => String.ne_of_lt h
    rw [hs,List.map_append,List.map_cons,List.nodup_append] at hn
    have hm : p.1 ∈ before.map Prod.fst := (List.of_mem_zip hp).1
    simpa using (hn.2.2 p.1 hm key (.head _)).symm
  rw [settledUnder,hlook]
  rfl

/-- The relations of a path are what came of its last key. -/
theorem exists_relations (hm : (key,raws) ∈ q.imports.entries) (hne : Path.normalize key ≠ "")
    (hl : ∀ other ∈ q.imports.keys, Path.normalize other = Path.normalize key → other ≤ key) :
    ∃ x ∈ q.trace, (execute q).relations.find? (Path.normalize key) = some x.relations ∧
      x.rel = Path.normalize key ∧ x.raws = specifiersOf raws ∧ x.settled = q.settledUnder key ∧
      x.settled.map (·.query) = queriesOf q.ruled (Path.normalize key,raws) := by
  obtain ⟨before,later,hs,hlater⟩ := exists_spellings_append hm hne hl
  obtain ⟨front,x,back,ht,hf,hrel,hraws,hq,hback⟩ := exists_trace_append hs
  refine ⟨x,by simp [ht],?_,hrel,hraws,(settledUnder_of_append hs ht hf).symm,hq⟩
  have hb : ∀ y ∈ back, y.rel ≠ x.rel := by
    intro y hy he
    have hm : y.rel ∈ later.map fun e => Path.normalize e.1 := hback ▸ List.mem_map_of_mem hy
    obtain ⟨e,he',hn⟩ := List.mem_map.mp hm
    exact hlater e he' (hn.trans (he.trans hrel))
  rw [← hrel,q.execute_eq,finish,q.closed_run.2.1,ht]
  refine FileRecord.find?_foldl_append (fun t y hy => ?_) (fun t => ?_) front hb _
  · rw [FileRecord.find?_relate,if_neg hy.symm]
  · rw [FileRecord.find?_relate,if_pos rfl]

end Request

/-- Under a key that no later one spells again, nothing that was read is lost. -/
theorem relations_hold (q : Request) {content : String}
    (hp : Imports.parse content = .ok q.imports) {key : String} {raws : List String}
    (hm : (key,raws) ∈ q.imports.entries)
    (hl : ∀ other ∈ q.imports.keys, Path.normalize other = Path.normalize key → other ≤ key) :
    ∃ r, (execute q).relations.find? (Path.normalize key) = some r ∧
      r.Holds (Path.normalize key) raws (q.settledUnder key) := by
  have hne : Path.normalize key ≠ "" := by
    intro he
    have hi := Imports.isInside_of_parse hp key (List.mem_map_of_mem hm)
    rw [he] at hi
    cases hi
  obtain ⟨x,-,hfind,hrel,hraws,hsettled,hq⟩ := Request.exists_relations hm hne hl
  refine ⟨x.relations,hfind,?_⟩
  rw [← hrel,← hsettled]
  rw [← hrel] at hq
  exact FileRecord.relations_holds hraws hq

/-- A page that is spelled in two ways, with a part under the one and a library under the other. -/
def respelledImports : Table (List String) :=
  Table.ofList [("./page",["./part.txt"]),("page",["library"])]

def respelledPage : Request := page respelledImports

def respelledText : String := "\x7b\"./page\":[\"./part.txt\"],\"page\":[\"library\"]\x7d"

theorem parse_respelledText : Imports.parse respelledText = .ok respelledPage.imports := by
  decide +kernel

theorem relations_hold_respelledPage :
    Imports.parse respelledText = .ok respelledPage.imports ∧
      ("page",["library"]) ∈ respelledPage.imports.entries ∧
      (∀ other ∈ respelledPage.imports.keys,
        Path.normalize other = Path.normalize "page" → other ≤ "page") ∧
      ∃ r, (execute respelledPage).relations.find? (Path.normalize "page") = some r ∧
        r.Holds (Path.normalize "page") ["library"] (respelledPage.settledUnder "page") := by
  have hm : ("page",["library"]) ∈ respelledPage.imports.entries := by decide +kernel
  have hl : ∀ other ∈ respelledPage.imports.keys,
      Path.normalize other = Path.normalize "page" → other ≤ "page" := by decide +kernel
  exact ⟨parse_respelledText,hm,hl,relations_hold respelledPage parse_respelledText hm hl⟩

/-- The part that the page has under its first spelling is found, and stands in no relation. -/
theorem not_holds_respelledPage :
    Imports.parse respelledText = .ok respelledPage.imports ∧
      ("./page",["./part.txt"]) ∈ respelledPage.imports.entries ∧
      (∃ x ∈ respelledPage.settled, x.query.importer.rel = Path.normalize "./page" ∧
        x.query.raw = "./part.txt" ∧ x.fate = .inside "part.txt") ∧
      ∃ r, (execute respelledPage).relations.find? (Path.normalize "./page") = some r ∧
        "./part.txt" ∉ r.imports ∧ "part.txt" ∉ r.importLinks ∧
        ¬r.Holds (Path.normalize "./page") ["./part.txt"]
          (respelledPage.settledUnder "./page") := by
  have hr : respelledPage.ruled = respelledPage.listed := Request.ruled_listed rfl rfl
  have hi : importersOf respelledPage.imports = [("page",["./part.txt"]),("page",["library"])] :=
    importersOf_of_sorted (by decide +kernel) (by decide +kernel)
  have ho : respelledPage.opened = respelledPage.start none := rfl
  refine ⟨parse_respelledText,by decide +kernel,?_,?_⟩
  · rw [Request.settled,Request.trace,hr,hi,ho]
    decide +kernel
  · have hfind : (execute respelledPage).relations.find? (Path.normalize "./page") =
        some ⟨["library"],[],["library"]⟩ := by
      rw [Request.execute_eq,finish,Request.closed,hr,hi,ho]
      decide +kernel
    have hn : "./part.txt" ∉ ["library"] := by decide +kernel
    exact ⟨_,hfind,hn,by simp,fun h => hn (h.imports "./part.txt" (by simp) (by decide +kernel))⟩

end Run
end ImportResolution

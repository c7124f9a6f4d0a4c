import ImportResolution.BuildContext
import ImportResolution.Proofs.Parts

/-! Fingerprints of configurations. A fingerprint joins what a configuration says by marks, so it
tells configurations apart as long as no text in them has a mark; and it writes an option that is
left out like one that names the root. -/
namespace ImportResolution

theorem Text.mem_intercalate_comma {c : Char} (hc : c ≠ ',') {xs : List String}
    (h : c ∈ (",".intercalate xs).toList) : ∃ x ∈ xs, c ∈ x.toList := by
  rw [String.toList_intercalate] at h
  induction xs with
  | nil => simp at h
  | cons x rest ih =>
    cases rest with
    | nil => exact ⟨x,.head _,by simpa using h⟩
    | cons y more =>
      rw [List.map_cons,List.map_cons,List.intercalate_cons_cons,List.mem_append,
        List.mem_append] at h
      rcases h with (h | h) | h
      · exact ⟨x,.head _,h⟩
      · exact absurd (List.mem_singleton.mp h) hc
      · obtain ⟨z,hz,hm⟩ := ih h
        exact ⟨z,.tail _ hz,hm⟩

namespace TsConfig

/-- A pattern and its targets as a fingerprint has them. -/
def pathText (e : String × List String) : String := "path:" ++ e.1 ++ "=>" ++ ",".intercalate e.2

/-- A pattern and targets that can be read from their text: one empty target looks like none. -/
structure IsLegiblePath (e : String × List String) : Prop where
  arrow : Text.contains "=>" e.1 = false
  comma : ∀ t ∈ e.2, ',' ∉ t.toList
  bar : '|' ∉ e.1.toList ∧ ∀ t ∈ e.2, '|' ∉ t.toList
  named : e.2 ≠ [""]

namespace IsLegiblePath
variable {e d : String × List String}

theorem bar_not_mem (h : IsLegiblePath e) : '|' ∉ (pathText e).toList := by
  simp only [pathText,String.toList_append,List.mem_append,not_or]
  refine ⟨⟨⟨by decide,h.bar.1⟩,by decide⟩,fun hm => ?_⟩
  obtain ⟨t,ht,hb⟩ := Text.mem_intercalate_comma (by decide) hm
  exact h.bar.2 t ht hb

theorem targets_eq (h : IsLegiblePath e) (k : IsLegiblePath d)
    (ht : ",".intercalate e.2 = ",".intercalate d.2) : e.2 = d.2 := by
  -- Nothing is written for no target, and otherwise only for an empty one.
  have hempty : ∀ {x : String × List String}, IsLegiblePath x → ",".intercalate x.2 = "" →
      x.2 = [] := by
    intro x hx hi
    refine Decidable.byContradiction fun hn => hx.named ?_
    exact Text.intercalate_comma_inj hx.comma (by decide) hn (by decide) hi
  by_cases he : e.2 = []
  · rw [he]
    rw [he] at ht
    exact (hempty k ht.symm).symm
  · by_cases hd : d.2 = []
    · rw [hd] at ht
      exact absurd (hempty h ht) he
    · exact Text.intercalate_comma_inj h.comma k.comma he hd ht

theorem eq_of_pathText (h : IsLegiblePath e) (k : IsLegiblePath d) (ht : pathText e = pathText d) :
    e = d := by
  simp only [pathText,String.append_assoc] at ht
  have ht := (String.append_right_inj _).mp ht
  rw [← String.append_assoc,← String.append_assoc] at ht
  obtain ⟨hp,ht⟩ := Text.append_pair_inj (x := '=') (y := '>') rfl (by decide) h.arrow k.arrow ht
  exact Prod.ext hp (h.targets_eq k ht)

end IsLegiblePath

theorem eq_of_map_pathText {xs ys : List (String × List String)} (hx : ∀ e ∈ xs, IsLegiblePath e)
    (hy : ∀ e ∈ ys, IsLegiblePath e) (h : xs.map pathText = ys.map pathText) : xs = ys := by
  induction xs generalizing ys with
  | nil => exact (List.map_eq_nil_iff.mp h.symm).symm
  | cons e rest ih =>
    cases ys with
    | nil => cases h
    | cons d more =>
      obtain ⟨ht,hr⟩ := List.cons.inj h
      rw [(hx e (.head _)).eq_of_pathText (hy d (.head _)) ht,
        ih (fun x hm => hx x (.tail _ hm)) (fun x hm => hy x (.tail _ hm)) hr]

namespace Profile
variable {root config : String} {m n : MergedOptions} {p o : Profile}

/-- The texts of directories as a fingerprint has them, in their order. -/
def directories (p : Profile) : List String :=
  [p.baseUrl.getD "",p.pathsBase,p.outDir.getD "",p.rootDir.getD "",p.declarationDir.getD ""]

/-- A profile that can be read from what its fingerprint is made of. -/
structure IsLegible (p : Profile) (paths : Table (List String)) : Prop where
  bar : ∀ t ∈ p.directories, '|' ∉ t.toList
  path : ∀ e ∈ paths.entries, IsLegiblePath e

theorem of_of? (h : of? root config m = some p) :
    Location.within? root config = some p.tsconfigRel ∧
      p.rules = m.paths.entries.filterMap (fun e => PathRule.of? e.1 e.2) ∧
      p.fingerprint = Digest.ofParts version (p.fingerprintParts m.paths) := by
  obtain ⟨rel,hr,rfl⟩ := Option.map_eq_some_iff.mp h
  exact ⟨hr,rfl,rfl⟩

/-- What stands behind the path of the configuration in its fingerprint. -/
def tailParts (p : Profile) (paths : Table (List String)) : List String :=
  ["baseUrl:" ++ p.baseUrl.getD "","pathsBase:" ++ p.pathsBase] ++ paths.entries.map pathText
    ++ ["outDir:" ++ p.outDir.getD "","rootDir:" ++ p.rootDir.getD "",
        "declarationDir:" ++ p.declarationDir.getD ""]

theorem fingerprintParts_eq (p : Profile) (paths : Table (List String)) :
    p.fingerprintParts paths = ("tsconfig:" ++ p.tsconfigRel) :: p.tailParts paths := rfl

theorem IsLegible.bar_not_mem {paths : Table (List String)} (h : p.IsLegible paths) :
    ∀ part ∈ p.tailParts paths, '|' ∉ part.toList := by
  have hd : ∀ {label text : String}, '|' ∉ label.toList → text ∈ p.directories →
      '|' ∉ (label ++ text).toList := by
    intro label text hl ht
    rw [String.toList_append,List.mem_append,not_or]
    exact ⟨hl,h.bar text ht⟩
  intro part hm
  simp only [tailParts,List.mem_append,List.mem_cons,List.not_mem_nil,or_false] at hm
  rcases hm with ((rfl | rfl) | hm) | rfl | rfl | rfl
  · exact hd (by decide) (by simp [directories])
  · exact hd (by decide) (by simp [directories])
  · obtain ⟨e,he,rfl⟩ := List.mem_map.mp hm
    exact (h.path e he).bar_not_mem
  · exact hd (by decide) (by simp [directories])
  · exact hd (by decide) (by simp [directories])
  · exact hd (by decide) (by simp [directories])

/-- Directories and paths can be read from what stands there. -/
theorem IsLegible.eq_of_tailParts {s t : Table (List String)} (h : p.IsLegible s)
    (k : o.IsLegible t) (he : p.tailParts s = o.tailParts t) :
    p.directories = o.directories ∧ s.entries = t.entries := by
  simp only [tailParts,List.cons_append,List.nil_append,List.cons.injEq,
    String.append_right_inj] at he
  obtain ⟨hbase,hpaths,he⟩ := he
  obtain ⟨hentries,he⟩ := List.append_inj' he rfl
  simp only [List.cons.injEq,String.append_right_inj,and_true] at he
  obtain ⟨hout,hroot,hdecl⟩ := he
  exact ⟨by rw [directories,hbase,hpaths,hout,hroot,hdecl,directories],
    eq_of_map_pathText h.path k.path hentries⟩

/-- An option that one profile leaves out does not name the root in the other, unless the root is
what it stands for when it is left out. Where the sources lie at the root, nothing is emitted
there. -/
structure AgreesOnRoot (p o : Profile) : Prop where
  baseUrl : p.baseUrl = some "" ↔ o.baseUrl = some ""
  rootDir : (p.rootDir = some "" ↔ o.rootDir = some "") ∨ Path.parent p.tsconfigRel = ""
  outDir : (p.outDir = some "" ↔ o.outDir = some "") ∨ Emit.rootDirOf p = ""
  declarationDir : (p.declarationDir = some "" ↔ o.declarationDir = some "") ∨ Emit.rootDirOf p = ""

theorem eq_of_getD {a b : Option String} (h : a.getD "" = b.getD "")
    (hr : a = some "" ↔ b = some "") : a = b := by
  cases a with
  | none =>
    cases b with
    | none => rfl
    | some s =>
      obtain rfl : "" = s := h
      exact hr.mpr rfl
  | some s =>
    cases b with
    | none =>
      obtain rfl : s = "" := h
      exact (hr.mp rfl).symm
    | some t => exact congrArg some h

/-- Options that differ at most in that one is left out and the other names the root are the same
where the root does not count. -/
theorem filter_toList_of_getD {a b : Option String} (h : a.getD "" = b.getD "")
    {keep : String → Bool} (hr : (a = some "" ↔ b = some "") ∨ keep "" = false) :
    a.toList.filter keep = b.toList.filter keep := by
  rcases hr with hr | hk
  · rw [eq_of_getD h hr]
  · cases a with
    | none =>
      cases b with
      | none => rfl
      | some s =>
        obtain rfl : "" = s := h
        simp [hk]
    | some s =>
      cases b with
      | none =>
        obtain rfl : s = "" := h
        simp [hk]
      | some t =>
        obtain rfl : s = t := h
        rfl

/-- What can be read from a fingerprint. -/
theorem eq_of_fingerprint (hp : of? root config m = some p) (ho : of? root config n = some o)
    (hm : p.IsLegible m.paths) (hn : o.IsLegible n.paths)
    (hd : Digest.TellsApart (Digest.message version (p.fingerprintParts m.paths))
      (Digest.message version (o.fingerprintParts n.paths)))
    (h : p.fingerprint = o.fingerprint) :
    p.tsconfigRel = o.tsconfigRel ∧ p.rules = o.rules ∧ p.directories = o.directories := by
  obtain ⟨hrel,hrules,hprint⟩ := of_of? hp
  obtain ⟨krel,krules,kprint⟩ := of_of? ho
  have hrel : p.tsconfigRel = o.tsconfigRel := Option.some.inj (hrel.symm.trans krel)
  have he := Digest.encodeParts_of_ofParts hd (hprint.symm.trans (h.trans kprint))
  rw [fingerprintParts_eq,fingerprintParts_eq,← hrel,Digest.encodeParts_cons,
    Digest.encodeParts_cons] at he
  obtain ⟨hdirs,hpaths⟩ :=
    hm.eq_of_tailParts hn (Digest.encodeParts_inj he hm.bar_not_mem hn.bar_not_mem)
  exact ⟨hrel,by rw [hrules,krules,hpaths],hdirs⟩

namespace AgreesOnRoot
variable (hr : p.AgreesOnRoot o) (hrel : p.tsconfigRel = o.tsconfigRel)
  (hd : p.directories = o.directories)
include hr hrel hd

theorem resolve?_eq (hrules : p.rules = o.rules) (i : FileIndex) (spec : String) :
    p.resolve? i spec = o.resolve? i spec := by
  simp only [directories,List.cons.injEq] at hd
  obtain ⟨hbase,hpathsBase,-⟩ := hd
  unfold resolve? rankedHits
  rw [hrules,hpathsBase,hrel,eq_of_getD hbase hr.baseUrl]

theorem rootDirOf_eq : Emit.rootDirOf p = Emit.rootDirOf o := by
  simp only [directories,List.cons.injEq] at hd
  obtain ⟨-,-,-,hroot,-⟩ := hd
  unfold Emit.rootDirOf
  rw [← hrel]
  rcases hr.rootDir with hk | hk
  · rw [eq_of_getD hroot hk]
  · rw [hk,hroot]

theorem outputDirs_eq : Emit.outputDirs p = Emit.outputDirs o := by
  have hsource := hr.rootDirOf_eq hrel hd
  simp only [directories,List.cons.injEq] at hd
  obtain ⟨-,-,hout,-,hdecl,-⟩ := hd
  -- An output directory counts unless it is where the sources lie.
  have hk : ∀ {q : Prop}, q ∨ Emit.rootDirOf p = "" →
      q ∨ (!Path.isRooted "" && "" != Emit.rootDirOf p) = false := by
    intro q hq
    exact hq.imp_right fun hz => by simp [hz]
  unfold Emit.outputDirs
  rw [← hsource,List.filter_append,List.filter_append,
    filter_toList_of_getD hout (hk hr.outDir),filter_toList_of_getD hdecl (hk hr.declarationDir)]

theorem match?_eq (i : FileIndex) (spec : String) (importer : Importer) :
    Emit.match? i p spec importer = Emit.match? i o spec importer := by
  unfold Emit.match?
  rw [hr.rootDirOf_eq hrel hd,hr.outputDirs_eq hrel hd]

end AgreesOnRoot

/-- Profiles that look the same through their fingerprints and agree on the root say the same. -/
theorem answers_of_fingerprint (hp : of? root config m = some p) (ho : of? root config n = some o)
    (hm : p.IsLegible m.paths) (hn : o.IsLegible n.paths) (hr : p.AgreesOnRoot o)
    (hd : Digest.TellsApart (Digest.message version (p.fingerprintParts m.paths))
      (Digest.message version (o.fingerprintParts n.paths)))
    (h : p.fingerprint = o.fingerprint) :
    (∀ i spec, p.resolve? i spec = o.resolve? i spec) ∧
      ∀ (b : BuildContext) i importer spec raw,
        b.classifyBy i ⟨importer,spec,raw,some p⟩ .emit =
          b.classifyBy i ⟨importer,spec,raw,some o⟩ .emit := by
  obtain ⟨hrel,hrules,hdirs⟩ := eq_of_fingerprint hp ho hm hn hd h
  refine ⟨hr.resolve?_eq hrel hdirs hrules,?_⟩
  intro b i importer spec raw
  simp only [BuildContext.classifyBy,Option.bind_some,hr.match?_eq hrel hdirs]

/-- Options that map a pattern and send what the compiler makes to `dist`. -/
def emittingOptions (rootDir : Option String) : MergedOptions where
  paths := Table.ofList [("@app/*",["src/*"])]
  outDir := some "/r/dist"
  rootDir

def emitting (rootDir : Option String) : Profile where
  tsconfigRel := "tsconfig.json"
  baseUrl := none
  pathsBase := ""
  rules := [⟨"@app/*",["src/*"]⟩]
  outDir := some "dist"
  rootDir
  declarationDir := none
  fingerprint := Digest.ofParts version
    ["tsconfig:tsconfig.json","baseUrl:","pathsBase:","path:@app/*=>src/*","outDir:dist",
      "rootDir:" ++ rootDir.getD "","declarationDir:"]

theorem of?_emittingOptions (rootDir : Option String) :
    of? "/r" "/r/tsconfig.json" (emittingOptions rootDir) =
      some (emitting (rootDir.map (dirText "/r"))) := by
  have hw : Location.within? "/r" "/r/tsconfig.json" = some "tsconfig.json" := by decide +kernel
  have hd : dirText "/r" "/r/dist" = "dist" := by decide +kernel
  have hb : Path.parent "tsconfig.json" = "" := by decide +kernel
  have hr : PathRule.of? "@app/*" ["src/*"] = some ⟨"@app/*",["src/*"]⟩ := by decide +kernel
  simp [of?,hw,hd,hb,hr,emittingOptions,emitting,fingerprintParts,Table.ofList,Table.insert,
    Table.insertEntry,Table.empty]

theorem isLegible_emitting {rootDir : Option String} (h : '|' ∉ (rootDir.getD "").toList) :
    (emitting rootDir).IsLegible (emittingOptions rootDir).paths where
  bar := by simpa [directories,emitting] using h
  path := by
    intro e he
    obtain rfl := List.mem_singleton.mp he
    exact ⟨by decide,by decide,by decide,by decide⟩

/-- For a configuration at the root it makes no difference whether the root is named. -/
theorem answers_of_fingerprint_emitting :
    of? "/r" "/r/tsconfig.json" (emittingOptions none) = some (emitting none) ∧
      of? "/r" "/r/tsconfig.json" (emittingOptions (some "/r")) = some (emitting (some "")) ∧
      (emitting none).fingerprint = (emitting (some "")).fingerprint ∧
      (∀ i spec, (emitting none).resolve? i spec = (emitting (some "")).resolve? i spec) ∧
        ∀ (b : BuildContext) i importer spec raw,
          b.classifyBy i ⟨importer,spec,raw,some (emitting none)⟩ .emit =
            b.classifyBy i ⟨importer,spec,raw,some (emitting (some ""))⟩ .emit := by
  have hr : dirText "/r" "/r" = "" := by decide +kernel
  have hp := of?_emittingOptions none
  have ho := of?_emittingOptions (some "/r")
  rw [Option.map_some,hr] at ho
  refine ⟨hp,ho,rfl,?_⟩
  refine answers_of_fingerprint hp ho (isLegible_emitting (by decide))
    (isLegible_emitting (by decide)) ⟨Iff.rfl,.inr (by decide +kernel),.inl Iff.rfl,.inl Iff.rfl⟩
    (fun _ => rfl) rfl

/-- The profile of a configuration that sets a base and nothing else. -/
def based (baseUrl : Option String) : Profile where
  tsconfigRel := "tsconfig.json"
  baseUrl
  pathsBase := baseUrl.getD ""
  rules := []
  outDir := none
  rootDir := none
  declarationDir := none
  fingerprint := Digest.ofParts version
    ["tsconfig:tsconfig.json","baseUrl:" ++ baseUrl.getD "","pathsBase:" ++ baseUrl.getD "",
      "outDir:","rootDir:","declarationDir:"]

theorem of?_based (baseUrl : Option String) :
    of? "/r" "/r/tsconfig.json" { baseUrl } = some (based (baseUrl.map (dirText "/r"))) := by
  have hw : Location.within? "/r" "/r/tsconfig.json" = some "tsconfig.json" := by decide +kernel
  have hb : Path.parent "tsconfig.json" = "" := by decide +kernel
  cases baseUrl <;> simp [of?,hw,hb,based,Table.empty,fingerprintParts]

/-- A base that is the root finds what is not found without a base, with the same fingerprint. -/
theorem resolve?_ne_based :
    of? "/r" "/r/tsconfig.json" {} = some (based none) ∧
      of? "/r" "/r/tsconfig.json" { baseUrl := some "/r" } = some (based (some "")) ∧
      (based none).fingerprint = (based (some "")).fingerprint ∧
      (based none).resolve? (.of (.ofPaths ["lib/util.ts"])) "lib/util" ≠
        (based (some "")).resolve? (.of (.ofPaths ["lib/util.ts"])) "lib/util" := by
  have hr : dirText "/r" "/r" = "" := by decide +kernel
  have ho := of?_based (some "/r")
  rw [Option.map_some,hr] at ho
  exact ⟨of?_based none,ho,rfl,by decide +kernel⟩

end Profile
end TsConfig
end ImportResolution

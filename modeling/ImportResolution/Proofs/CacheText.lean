import ImportResolution.Cache.Codec
import ImportResolution.Proofs.JsonText

/-! The text of a cache read back. A field that is not written, one that is written as null and one
that is written as a name are each read as what they were, so that a cache is told by its text. -/
namespace ImportResolution

/-! Tables. -/

namespace Table
variable {α : Type}

theorem insertEntry_of_lt {key : String} {value : α} {xs : List (String × α)}
    (h : ∀ x ∈ xs, x.1 < key) : insertEntry key value xs = xs ++ [(key,value)] := by
  induction xs with
  | nil => rfl
  | cons x rest ih =>
    have hx := h x (.head _)
    have hn : key ≠ x.1 := fun he => String.lt_irrefl _ (he ▸ hx)
    rw [insertEntry,if_neg (String.lt_asymm hx),if_neg hn,ih fun y hy => h y (.tail _ hy)]
    rfl

theorem foldl_insert {xs : List (String × α)} {t : Table α}
    (h : ((t.entries ++ xs).map Prod.fst).Pairwise (· < ·)) :
    (xs.foldl (fun t e => t.insert e.1 e.2) t).entries = t.entries ++ xs := by
  induction xs generalizing t with
  | nil => simp
  | cons x rest ih =>
    have hi : (t.insert x.1 x.2).entries = t.entries ++ [x] := by
      refine insertEntry_of_lt fun y hy => ?_
      rw [List.map_append,List.pairwise_append] at h
      exact h.2.2 y.1 (List.mem_map_of_mem hy) x.1 (.head _)
    rw [List.foldl_cons,ih (by rw [hi]; simpa using h),hi]
    simp

/-- A table is restored from its own entries. -/
theorem ofList_entries (t : Table α) : ofList t.entries = t :=
  ext (foldl_insert (t := empty) t.ordered)

end Table

namespace Json
open Cache (memberOf)

/-- The members of an object, less those that are absent. -/
def present (fields : List (String × Option Json)) : List (String × Json) :=
  fields.flatMap fun f => memberOf f.1 f.2

theorem mem_present {fields : List (String × Option Json)} {m : String × Json} :
    m ∈ present fields ↔ (m.1,some m.2) ∈ fields := by
  simp only [present,memberOf,List.mem_flatMap,Option.mem_toList,Option.map_eq_some_iff]
  constructor
  · rintro ⟨⟨key,value⟩,hf,v,hv,rfl⟩
    obtain rfl : value = some v := hv
    exact hf
  · exact fun h => ⟨_,h,m.2,rfl,rfl⟩

theorem arePlain_iff {xs : List Json} : ArePlain xs ↔ ∀ x ∈ xs, x.IsPlain := by
  induction xs with
  | nil => simp [ArePlain]
  | cons x rest ih => simp [ArePlain,ih]

theorem arePlainMembers_iff {ms : List (String × Json)} :
    ArePlainMembers ms ↔ ∀ m ∈ ms, m.2.IsPlain := by
  induction ms with
  | nil => simp [ArePlainMembers]
  | cons m rest ih => simp [ArePlainMembers,ih]

theorem isPlain_strs (xs : List String) : (strs xs).IsPlain :=
  arePlain_iff.mpr fun x hx => by
    obtain ⟨s,-,rfl⟩ := List.mem_map.mp hx
    trivial

theorem isPlain_ofOption {α : Type} {f : α → Json} (h : ∀ a, (f a).IsPlain) (o : Option α) :
    (ofOption f o).IsPlain := by
  cases o with
  | none => trivial
  | some a => exact h a

theorem isPlain_present {fields : List (String × Option Json)}
    (h : ∀ f ∈ fields, ∀ v ∈ f.2, v.IsPlain) : (obj (present fields)).IsPlain :=
  arePlainMembers_iff.mpr fun m hm => h _ (mem_present.mp hm) m.2 rfl

theorem isPlain_table {α : Type} {f : α → Json} {t : Table α}
    (h : ∀ e ∈ t.entries, (f e.2).IsPlain) :
    (obj (t.entries.map fun e => (e.1,f e.2))).IsPlain :=
  arePlainMembers_iff.mpr fun m hm => by
    obtain ⟨e,he,rfl⟩ := List.mem_map.mp hm
    exact h e he

/-! Records. -/

namespace Written

theorem mapM_eq_some {α β : Type} {f : α → Option β} {g : α → β} {xs : List α}
    (h : ∀ x ∈ xs, f x = some (g x)) : xs.mapM f = some (xs.map g) := by
  induction xs with
  | nil => rfl
  | cons x rest ih =>
    rw [List.mapM_cons,h x (.head _),ih fun y hy => h y (.tail _ hy)]
    rfl

theorem ofJsons_eq (xs : List Json) : ofJsons xs = xs.map ofJson := by
  induction xs with
  | nil => rfl
  | cons x rest ih => rw [ofJsons,ih,List.map_cons]

theorem ofJsonMembers_eq (ms : List (String × Json)) :
    ofJsonMembers ms = ms.map fun m => (some m.1,ofJson m.2) := by
  induction ms with
  | nil => rfl
  | cons m rest ih => rw [ofJsonMembers,ih,List.map_cons]

theorem members?_ofJson (ms : List (String × Json)) :
    (ofJson (.obj ms)).members? = some (ms.map fun m => (m.1,ofJson m.2)) := by
  rw [ofJson,ofJsonMembers_eq,members?,List.mapM_map]
  exact mapM_eq_some fun _ _ => rfl

theorem valuesOf_append (ms ns : Members) (key : String) :
    valuesOf (ms ++ ns) key = valuesOf ms key ++ valuesOf ns key := by
  simp [valuesOf]

theorem valuesOf_of_ne {ms : Members} {key : String} (h : ∀ m ∈ ms, m.1 ≠ key) :
    valuesOf ms key = [] := by
  rw [valuesOf,List.filter_eq_nil_iff.mpr fun m hm => by simpa using h m hm]
  rfl

theorem valuesOf_present {fields : List (String × Option Json)}
    (hn : (fields.map Prod.fst).Nodup) {f : String × Option Json} (hf : f ∈ fields) :
    valuesOf ((present fields).map fun m => (m.1,ofJson m.2)) f.1 = (f.2.map ofJson).toList := by
  induction fields with
  | nil => cases hf
  | cons g rest ih =>
    rw [List.map_cons,List.nodup_cons] at hn
    rw [present,List.flatMap_cons,List.map_append,valuesOf_append]
    rcases List.mem_cons.mp hf with rfl | hf
    · have hr : valuesOf ((present rest).map fun m => (m.1,ofJson m.2)) f.1 = [] := by
        refine valuesOf_of_ne fun m hm he => hn.1 ?_
        obtain ⟨x,hx,rfl⟩ := List.mem_map.mp hm
        exact he ▸ List.mem_map_of_mem (mem_present.mp hx)
      rw [← present,hr,List.append_nil]
      cases f.2 <;> simp [memberOf,valuesOf]
    · have hg : valuesOf ((memberOf g.1 g.2).map fun m => (m.1,ofJson m.2)) f.1 = [] := by
        refine valuesOf_of_ne fun m hm he => hn.1 ?_
        simp only [memberOf,List.mem_map,Option.mem_toList,Option.map_eq_some_iff] at hm
        obtain ⟨x,⟨v,-,rfl⟩,rfl⟩ := hm
        exact he ▸ List.mem_map_of_mem hf
      rw [hg,List.nil_append]
      exact ih hn.2 hf

/-- The fields of a record are read as they were written, absent ones as absent. -/
theorem record?_present (fields : List (String × Option Json))
    (hn : (fields.map Prod.fst).Nodup) :
    record? (fields.map Prod.fst) (ofJson (.obj (present fields))) =
      some (fields.map fun f => f.2.map ofJson) := by
  have hm := members?_ofJson (present fields)
  rw [ofJson] at hm ⊢
  rw [record?,hm,Option.bind_some,List.mapM_map]
  · refine mapM_eq_some fun f hf => ?_
    rw [Function.comp_apply,single?,valuesOf_present hn hf]
    cases f.2 <;> rfl
  · nofun

/-! Fields. -/

section Fields
variable {α : Type} {read : Written → Option α}

theorem optional?_of_read (hn : read .null = none) {v : Written} {a : α} (h : read v = some a) :
    optional? read (some v) = some (some a) := by
  cases v with
  | null =>
    rw [hn] at h
    cases h
  | _ => simp [optional?,h]

/-- A field that is left out where there is nothing. -/
theorem optional?_map (hn : read .null = none) {f : α → Json}
    (hr : ∀ a, read (ofJson (f a)) = some a) (o : Option α) :
    optional? read ((o.map f).map ofJson) = some o := by
  cases o with
  | none => rfl
  | some a => exact optional?_of_read hn (hr a)

/-- A field that is null where there is nothing. -/
theorem optional?_ofOption (hn : read .null = none) {f : α → Json}
    (hr : ∀ a, read (ofJson (f a)) = some a) (o : Option α) :
    optional? read (some (ofJson (ofOption f o))) = some o := by
  cases o with
  | none => rfl
  | some a => exact optional?_of_read hn (hr a)

theorem table?_ofJson {f : α → Json} {t : Table α}
    (h : ∀ e ∈ t.entries, read (ofJson (f e.2)) = some e.2) :
    table? read (ofJson (.obj (t.entries.map fun e => (e.1,f e.2)))) = some t := by
  have hm : t.entries.mapM (fun e => (read (ofJson (f e.2))).map fun a => (e.1,a)) =
      some (t.entries.map id) := mapM_eq_some fun e he => by rw [h e he]; rfl
  rw [table?,members?_ofJson,Option.bind_some,List.map_map,List.mapM_map]
  simp only [Function.comp_def,hm,List.map_id,Option.map_some,Table.ofList_entries]

theorem mapM_list?_ofJson {f : α → Json} {xs : List α} (h : ∀ a ∈ xs, read (ofJson (f a)) = some a) :
    ((ofJson (.arr (xs.map f))).list?.bind fun ws => ws.mapM read) = some xs := by
  rw [ofJson,ofJsons_eq,list?,Option.bind_some,List.mapM_map,List.mapM_map]
  exact (mapM_eq_some h).trans (by rw [List.map_id'])

end Fields

end Written
end Json

namespace Cache
open Json (Written present)

namespace Entry

/-- Every moment is one that 64 bits with a sign can hold. -/
def IsDated (e : Entry) : Prop :=
  ∀ n ∈ e.expiresAt, -Int.ofNat (Nat.pow 2 63) ≤ n ∧ n < Int.ofNat (Nat.pow 2 63)

def fields (e : Entry) : List (String × Option Json) :=
  [("resolvedType",some (.str e.resolvedType.name)),
   ("resolvedPath",e.resolvedPath.map .str),
   ("tsPathPattern",e.tsPathPattern.map .str),
   ("tsconfigPath",e.tsconfigPath.map .str),
   ("packageName",e.packageName.map .str),
   ("unresolvedReasonCode",e.reason.map fun c => .str c.name),
   ("unresolvedBudgetExhaustedTypes",if e.exhausted.isEmpty then none
     else some (Json.strs (e.exhausted.map BudgetKind.name))),
   ("cacheClass",if e.isEphemeral then some (.str ephemeralClass) else none),
   ("fallbackPath",e.fallbackPath.map .str),
   ("expiresAt",e.expiresAt.map .int)]

theorem toJson_eq (e : Entry) : e.toJson = .obj (present e.fields) := by
  simp only [toJson,fields,present,List.flatMap_cons,List.flatMap_nil,List.append_assoc,
    List.append_nil,apply_ite (memberOf _)]
  rfl

theorem kinds?_ofJson (e : Entry) : Written.orDefault? kinds? []
    ((if e.exhausted.isEmpty then none
      else some (Json.strs (e.exhausted.map BudgetKind.name))).map Written.ofJson) =
    some e.exhausted := by
  have hk : kinds? (Written.ofJson (Json.strs (e.exhausted.map BudgetKind.name))) =
      some e.exhausted := by
    rw [Json.strs,List.map_map]
    exact Written.mapM_list?_ofJson fun k _ => BudgetKind.ofName?_name k
  cases he : e.exhausted with
  | nil => rfl
  | cons k rest =>
    rw [he] at hk
    exact hk

theorem class?_ofJson (e : Entry) : Written.optional? isClass?
    ((if e.isEphemeral then some (Json.str ephemeralClass) else none).map Written.ofJson) =
      some (if e.isEphemeral then some () else none) := by
  cases e.isEphemeral with
  | false => rfl
  | true =>
    exact Written.optional?_of_read rfl (by simp [isClass?,Written.ofJson,Written.nameText?])

theorem moment?_ofJson {e : Entry} (h : e.IsDated) :
    Written.optional? moment? ((e.expiresAt.map Json.int).map Written.ofJson) = some e.expiresAt := by
  cases he : e.expiresAt with
  | none => rfl
  | some n =>
    exact Written.optional?_of_read rfl (Option.filter_eq_some_iff.mpr ⟨rfl,by simpa using h n he⟩)

/-- Each field is read as it was. -/
theorem ofWritten?_toJson {e : Entry} (h : e.IsDated) :
    ofWritten? (Written.ofJson e.toJson) = some e := by
  have hr := Written.record?_present e.fields (by simp [fields])
  have hn : e.fields.map Prod.fst = fieldNames := rfl
  rw [hn] at hr
  have htype : Written.nameText? (Written.ofJson (.str e.resolvedType.name)) =
      some e.resolvedType.name := rfl
  have hstr : ∀ o : Option String,
      Written.optional? Written.str? ((o.map Json.str).map Written.ofJson) = some o :=
    Written.optional?_map rfl fun _ => rfl
  have hreason : Written.optional? (fun x => (Written.nameText? x).bind ReasonCode.ofName?)
      ((e.reason.map fun c => Json.str c.name).map Written.ofJson) = some e.reason :=
    Written.optional?_map rfl (fun c => ReasonCode.ofName?_name c) e.reason
  rw [toJson_eq,ofWritten?,hr]
  simp only [bind,Option.bind_some,fields,List.map_cons,List.map_nil,Option.map_some,htype,hstr,
    hreason,ResolvedType.ofName?_name,kinds?_ofJson,class?_ofJson,moment?_ofJson h]
  cases e with
  | mk _ _ _ _ _ _ _ isEphemeral _ _ => cases isEphemeral <;> rfl

theorem isPlain_toJson {e : Entry} (h : e.IsDated) : e.toJson.IsPlain := by
  have hsome : ∀ {j : Json}, j.IsPlain → ∀ v ∈ some j, v.IsPlain :=
    fun hj v hv => Option.some.inj hv ▸ hj
  have hmap : ∀ {α : Type} {f : α → Json} {o : Option α}, (∀ a ∈ o, (f a).IsPlain) →
      ∀ v ∈ o.map f, v.IsPlain := by
    intro α f o hf v hv
    obtain ⟨a,ha,rfl⟩ := Option.map_eq_some_iff.mp hv
    exact hf a ha
  have hstr : ∀ o : Option String, ∀ v ∈ o.map Json.str, v.IsPlain := fun _ =>
    hmap fun _ _ => trivial
  rw [toJson_eq]
  refine Json.isPlain_present ?_
  simp only [fields,List.forall_mem_cons,List.not_mem_nil,false_imp_iff,implies_true,and_true]
  refine ⟨hsome trivial,hstr _,hstr _,hstr _,hstr _,hmap fun _ _ => trivial,?_,?_,hstr _,
    hmap fun n hn => ⟨(h n hn).1,Int.lt_of_lt_of_le (h n hn).2 (by decide)⟩⟩
  · split
    · nofun
    · exact hsome (Json.isPlain_strs _)
  · split
    · exact hsome trivial
    · nofun

end Entry

namespace FileEntry

def IsDated (f : FileEntry) : Prop := ∀ e ∈ f.specs.entries, e.2.IsDated

def fields (f : FileEntry) : List (String × Option Json) :=
  [("hash",some (.str f.hash)),
   ("tsconfigFingerprint",some (Json.optStr f.configFingerprint)),
   ("specs",some (.obj (f.specs.entries.map fun e => (e.1,e.2.toJson))))]

theorem ofWritten?_toJson {f : FileEntry} (h : f.IsDated) :
    ofWritten? (Written.ofJson f.toJson) = some f := by
  have hr := Written.record?_present f.fields (by simp [fields])
  have hconfig : Written.optional? Written.str?
      (some (Written.ofJson (Json.optStr f.configFingerprint))) = some f.configFingerprint :=
    Written.optional?_ofOption rfl (fun _ => rfl) f.configFingerprint
  have hspecs := Written.table?_ofJson (t := f.specs) fun e he => Entry.ofWritten?_toJson (h e he)
  have hj : f.toJson = .obj (present f.fields) := rfl
  have hn : f.fields.map Prod.fst = ["hash","tsconfigFingerprint","specs"] := rfl
  rw [hn] at hr
  rw [hj,ofWritten?,hr]
  simp only [bind,Option.bind_some,fields,List.map_cons,List.map_nil,Option.map_some,hconfig,
    Written.orDefault?,hspecs]
  rfl

theorem isPlain_toJson {f : FileEntry} (h : f.IsDated) : f.toJson.IsPlain :=
  ⟨trivial,Json.isPlain_ofOption (f := .str) (fun _ => trivial) f.configFingerprint,
    Json.isPlain_table fun e he => Entry.isPlain_toJson (h e he),trivial⟩

end FileEntry

def snapshotFields (s : Snapshot) : List (String × Option Json) :=
  [("schemaVersion",some (.str s.schemaVersion)),("rootHash",some (.str s.rootHash)),
   ("fileSetFingerprint",some (.str s.fileSetFingerprint)),
   ("compatibilityFingerprint",some (.str s.compatibilityFingerprint)),
   ("files",some (Json.strs s.files))]

theorem snapshotOfWritten?_toJson (s : Snapshot) :
    snapshotOfWritten? (Written.ofJson (snapshotToJson s)) = some s := by
  have hr := Written.record?_present (snapshotFields s) (by simp [snapshotFields])
  have hstr : ∀ t, Written.str? (Written.ofJson (.str t)) = some t := fun _ => rfl
  have hfiles : Written.texts? (Written.ofJson (Json.strs s.files)) = some s.files :=
    Written.mapM_list?_ofJson fun _ _ => rfl
  have hj : snapshotToJson s = .obj (present (snapshotFields s)) := rfl
  have hn : (snapshotFields s).map Prod.fst = ["schemaVersion","rootHash","fileSetFingerprint",
    "compatibilityFingerprint","files"] := rfl
  rw [hn] at hr
  rw [snapshotOfWritten?,hj,hr]
  simp only [bind,Option.bind_some,snapshotFields,List.map_cons,List.map_nil,Option.map_some,hstr,
    hfiles]
  rfl

theorem isPlain_snapshotToJson (s : Snapshot) : (snapshotToJson s).IsPlain :=
  ⟨trivial,trivial,trivial,trivial,Json.isPlain_strs s.files,trivial⟩

namespace Persisted

def IsDated (c : Persisted) : Prop := ∀ f ∈ c.files.entries, f.2.IsDated

def fields (c : Persisted) : List (String × Option Json) :=
  [("version",some (.str c.version)),
   ("packageFingerprint",some (Json.optStr c.packageFingerprint)),
   ("fileSetFingerprint",some (Json.optStr c.fileSetFingerprint)),
   ("cacheKey",some (Json.optStr c.cacheKey)),
   ("files",some (.obj (c.files.entries.map fun e => (e.1,e.2.toJson)))),
   ("lookup",some (Json.ofOption snapshotToJson c.lookup))]

theorem ofWritten?_toJson {c : Persisted} (h : c.IsDated) :
    ofWritten? (Written.ofJson c.toJson) = some c := by
  have hr := Written.record?_present c.fields (by simp [fields])
  have hstr : ∀ o : Option String,
      Written.optional? Written.str? (some (Written.ofJson (Json.optStr o))) = some o :=
    Written.optional?_ofOption rfl fun _ => rfl
  have hlookup := Written.optional?_ofOption rfl snapshotOfWritten?_toJson c.lookup
  have hfiles :=
    Written.table?_ofJson (t := c.files) fun e he => FileEntry.ofWritten?_toJson (h e he)
  have hj : c.toJson = .obj (present c.fields) := rfl
  have hn : c.fields.map Prod.fst = ["version","packageFingerprint","fileSetFingerprint",
    "cacheKey","files","lookup"] := rfl
  rw [hn] at hr
  rw [hj,ofWritten?,hr]
  simp only [bind,Option.bind_some,fields,List.map_cons,List.map_nil,Option.map_some,hstr,
    hlookup,Written.orDefault?,hfiles]
  rfl

theorem isPlain_toJson {c : Persisted} (h : c.IsDated) : c.toJson.IsPlain := by
  have hstr := Json.isPlain_ofOption (f := .str) fun _ => trivial
  have hfiles := Json.isPlain_table (t := c.files) fun e he => FileEntry.isPlain_toJson (h e he)
  exact ⟨trivial,hstr c.packageFingerprint,hstr c.fileSetFingerprint,hstr c.cacheKey,hfiles,
    Json.isPlain_ofOption isPlain_snapshotToJson c.lookup,trivial⟩

/-- A cache is told by its text. -/
theorem parse?_text {c : Persisted} (h : c.IsDated) : parse? c.text = some c := by
  rw [parse?,text,Json.parse?_compact (isPlain_toJson h),Option.bind_some,ofWritten?_toJson h]

end Persisted
end Cache
end ImportResolution

import ImportResolution.Proofs.Trees

/-! The directory of a place as the end of a walk, and the files right in it. A disk finds, reads,
writes and moves such a file by the place of the directory and the name, however the place is
spelled. -/
namespace ImportResolution

namespace Disk
open ImportResolution.Path (steps IsStep IsName)
variable {d t : Disk} {dir name : String} {q : List String}

/-- Only from a directory a walk goes further. -/
theorem dir_of_walkFrom {u v : Spot} {names : List String} (h : d.walkFrom u names = .ok v) :
    u = v ∧ names = [] ∨ ∃ p, u = .taken p .dir := by
  cases names with
  | nil => exact .inl ⟨Except.ok.inj h,rfl⟩
  | cons s rest =>
    rcases u with ⟨p,_ | content⟩ | p
    · exact .inr ⟨p,rfl⟩
    · cases h
    · cases h

theorem goOn_of_dirs (hd : ∀ p, d.at? p = some .dir → t.at? p = some .dir) {path : List String}
    {s : String} (h : d.goOn (.taken path .dir) s = .ok (.taken q .dir)) :
    t.goOn (.taken path .dir) s = .ok (.taken q .dir) := by
  by_cases hdot : s = "."
  · simpa only [goOn,if_pos hdot] using h
  by_cases hup : s = ".."
  · simpa only [goOn,if_neg hdot,if_pos hup] using h
  by_cases hlong : s.utf8ByteSize > maxName
  · simp only [goOn,if_neg hdot,if_neg hup,if_pos hlong] at h
    cases h
  simp only [goOn,if_neg hdot,if_neg hup,if_neg hlong] at h ⊢
  cases he : d.at? (path ++ [s]) with
  | none =>
    rw [he] at h
    cases h
  | some e =>
    rw [he] at h
    obtain ⟨rfl,rfl⟩ := Spot.taken.inj (Except.ok.inj h)
    rw [hd _ he]

/-- Where all directories stay, walks between them stay. -/
theorem walkFrom_of_dirs (hd : ∀ p, d.at? p = some .dir → t.at? p = some .dir)
    {path names : List String} (h : d.walkFrom (.taken path .dir) names = .ok (.taken q .dir)) :
    t.walkFrom (.taken path .dir) names = .ok (.taken q .dir) := by
  induction names generalizing path with
  | nil => exact h
  | cons s rest ih =>
    rw [walkFrom_cons] at h ⊢
    cases hg : d.goOn (.taken path .dir) s with
    | error e =>
      rw [hg] at h
      cases h
    | ok u =>
      rw [hg] at h
      obtain ⟨p,rfl⟩ : ∃ p, u = .taken p .dir := (dir_of_walkFrom h).elim (fun e => ⟨q,e.1⟩) id
      rw [goOn_of_dirs hd hg]
      exact ih h

/-- What stands under a path, or that nothing does. -/
def spot (d : Disk) (path : List String) : Spot :=
  match d.at? path with
  | some e => .taken path e
  | none => .free path

/-- The disk without what stands under a path. -/
def without (d : Disk) (path : List String) : Disk :=
  ⟨d.entries.filter fun e => e.1 != path⟩

theorem at?_without {p : List String} (hp : p ≠ []) (r : List String) :
    (d.without p).at? r = if r = p then none else d.at? r := by
  split
  · next h =>
    subst h
    obtain ⟨s,rest,rfl⟩ := List.exists_cons_of_ne_nil hp
    rw [at?,List.lookup_eq_none_iff]
    · intro e he
      exact bne_iff_ne.mpr (bne_iff_ne.mp (List.mem_filter.mp he).2).symm
    · exact hp
  · next h =>
    cases r with
    | nil => rfl
    | cons s rest => exact lookup_filter_ne h d.entries

/-- The directory of a place, at the end of a walk. -/
structure IsHome (d : Disk) (dir : String) (q : List String) : Prop where
  plain : Text.hasChar nullChar dir = false
  walk : d.walkFrom (.taken [] .dir) (steps dir) = .ok (.taken q .dir)

theorem IsHome.of_dirs (h : d.IsHome dir q) (hd : ∀ p, d.at? p = some .dir → t.at? p = some .dir) :
    t.IsHome dir q :=
  ⟨h.plain,walkFrom_of_dirs hd h.walk⟩

theorem goOn_of_isName (hn : IsName name) :
    d.goOn (.taken q .dir) name = .ok (d.spot (q ++ [name])) := by
  simp only [goOn,if_neg hn.isStep.2.1,if_neg hn.ne_up,if_neg (Nat.not_lt.mpr hn.short),spot]
  cases d.at? (q ++ [name]) <;> rfl

theorem asksDirectory_join (hn : IsName name) :
    asksDirectory (Location.join dir name) = false := by
  have hs : ∀ s ∈ [name], IsStep s := by simpa using hn.isStep
  exact Location.endsWith_foldl_join hs (by simp) dir

section Home
variable (h : d.IsHome dir q) (hn : IsName name)
  (hl : (Location.join dir name).utf8ByteSize ≤ maxPlace)
include h hn hl

theorem IsHome.reach_join : d.reach (Location.join dir name) = .ok (d.spot (q ++ [name])) := by
  obtain ⟨front,he,hs,hf⟩ := Location.exists_join_eq dir hn.isStep
  have hc : Text.hasChar nullChar (Location.join dir name) = false := by
    have hs : ∀ s ∈ [name], IsStep s := by simpa using hn.isStep
    have hx := Location.hasChar_foldl_join hs (c := nullChar) (by decide) dir
    simpa [h.plain,hn.plain] using hx
  have hne : Location.join dir name ≠ "" := by
    intro hx
    rw [hx,Location.steps_empty] at hs
    simp at hs
  have hg := goOn_of_isName (d := d) (q := q) hn
  rw [reach_of_plain hc hne hl,hs,walkFrom_append,h.walk]
  change d.walkFrom (.taken q .dir) [name] = _
  rw [walkFrom_cons,hg]
  rfl

theorem IsHome.locate_join : d.locate (Location.join dir name) = .ok (d.spot (q ++ [name])) := by
  rw [locate,h.reach_join hn hl]
  split
  · next path content hs =>
    rw [if_neg (by rw [asksDirectory_join hn]; exact Bool.false_ne_true),hs]
  · rfl

/-- Whether no directory stands under a name. -/
theorem IsHome.isDir_join :
    d.isDir (Location.join dir name) = false ↔ d.at? (q ++ [name]) ≠ some .dir := by
  rw [isDir,stat,h.locate_join hn hl,spot]
  cases d.at? (q ++ [name]) with
  | none => simp
  | some e => cases e <;> simp

theorem IsHome.exists?_join {content : ByteArray}
    (hf : d.at? (q ++ [name]) = some (.file content)) :
    d.exists? (Location.join dir name) = true := by
  rw [exists?,isFile,stat,h.locate_join hn hl,spot,hf]
  rfl

theorem IsHome.read_join {content : ByteArray} (hf : d.at? (q ++ [name]) = some (.file content)) :
    d.read (Location.join dir name) = .ok content := by
  rw [read,h.locate_join hn hl,spot,hf]

theorem IsHome.write_join (hd : d.at? (q ++ [name]) ≠ some .dir) (content : ByteArray) :
    d.write (Location.join dir name) content = .ok (d.put (q ++ [name]) (.file content)) := by
  rw [write,h.reach_join hn hl,spot]
  cases he : d.at? (q ++ [name]) with
  | none => simp only [asksDirectory_join hn,Bool.false_eq_true,if_false]
  | some e =>
    cases e with
    | dir => exact absurd he hd
    | file old => simp only [asksDirectory_join hn,Bool.false_eq_true,if_false]

theorem IsHome.removeFile_join {content : ByteArray}
    (hf : d.at? (q ++ [name]) = some (.file content)) :
    d.removeFile (Location.join dir name) = .ok (d.without (q ++ [name])) := by
  rw [removeFile,h.locate_join hn hl,spot,hf]
  rfl

end Home

/-! What a write that was done tells of its place. -/

theorem reach_of_write {place : String} {content : ByteArray} (h : d.write place content = .ok t) :
    ∃ spot, d.reach place = .ok spot := by
  cases hr : d.reach place with
  | ok spot => exact ⟨spot,rfl⟩
  | error e =>
    rw [write,hr] at h
    cases h

theorem short_of_write {place : String} {content : ByteArray}
    (h : d.write place content = .ok t) : place.utf8ByteSize ≤ maxPlace := by
  obtain ⟨spot,hr⟩ := reach_of_write h
  refine Nat.le_of_not_lt fun hl => ?_
  unfold reach at hr
  split at hr
  · cases hr
  split at hr
  · cases hr
  cases hr

theorem isDir_of_write {place : String} {content : ByteArray}
    (h : d.write place content = .ok t) : d.isDir place = false := by
  refine eq_false_of_ne_true fun hd => ?_
  obtain ⟨q,hl⟩ := locate_of_isDir hd
  rw [write,reach_of_locate hl] at h
  cases h

theorem isDir_of_renameFile {source target : String} (h : d.renameFile source target = .ok t) :
    d.isDir target = false := by
  unfold renameFile at h
  cases hr : d.read source with
  | error e =>
    rw [hr] at h
    cases h
  | ok content =>
    cases hw : d.write target content with
    | error e =>
      simp only [hr,bind,Except.bind,hw] at h
      cases h
    | ok written => exact isDir_of_write hw

/-! Directories that are there or were made. -/

theorem exists_isHome_of_isDir (h : d.isDir dir = true) : ∃ q, d.IsHome dir q := by
  obtain ⟨q,hl⟩ := locate_of_isDir h
  obtain ⟨hw,hp,-⟩ := walkFrom_of_reach (reach_of_locate hl)
  exact ⟨q,hp,hw⟩

/-- What a walk finds free is one name further than a directory. -/
theorem goOn_free {path p : List String} {s : String}
    (h : d.goOn (.taken path .dir) s = .ok (.free p)) :
    p = path ++ [s] ∧ ∀ t : Disk, t.at? p = some .dir →
      t.goOn (.taken path .dir) s = .ok (.taken p .dir) := by
  by_cases hdot : s = "."
  · simp [goOn,hdot] at h
  by_cases hup : s = ".."
  · simp [goOn,hup] at h
  by_cases hlong : s.utf8ByteSize > maxName
  · simp [goOn,hdot,hup,hlong] at h
  simp only [goOn,if_neg hdot,if_neg hup,if_neg hlong] at h ⊢
  split at h
  · cases h
  · obtain rfl := Spot.free.inj (Except.ok.inj h)
    refine ⟨rfl,fun t ht => ?_⟩
    rw [ht]

/-- A directory made where a walk ended is found by that walk. -/
theorem walkFrom_put_of_free {path p names : List String}
    (h : d.walkFrom (.taken path .dir) names = .ok (.free p)) :
    p ≠ [] ∧ (d.put p .dir).walkFrom (.taken path .dir) names = .ok (.taken p .dir) := by
  induction names generalizing path with
  | nil => cases h
  | cons s rest ih =>
    rw [walkFrom_cons] at h ⊢
    cases hg : d.goOn (.taken path .dir) s with
    | error e =>
      rw [hg] at h
      cases h
    | ok u =>
      rw [hg] at h
      rcases dir_of_walkFrom h with ⟨rfl,rfl⟩ | ⟨r,rfl⟩
      · obtain ⟨rfl,hgo⟩ := goOn_free hg
        have hne : path ++ [s] ≠ [] := by simp
        rw [hgo (d.put (path ++ [s]) .dir) (by rw [at?_put d hne,if_pos rfl])]
        exact ⟨hne,rfl⟩
      · obtain ⟨hne,hw⟩ := ih h
        have hd : ∀ r, d.at? r = some .dir → (d.put p .dir).at? r = some .dir := by
          intro r hr
          rw [at?_put d hne,hr,ite_self]
        rw [goOn_of_dirs hd hg]
        exact ⟨hne,hw⟩

theorem exists_isHome_of_ensureDir (h : d.ensureDir dir = .ok t) : ∃ q, t.IsHome dir q := by
  unfold ensureDir at h
  split at h
  · next made hm =>
    obtain rfl := Except.ok.inj h
    unfold makeDir at hm
    split at hm
    · cases hm
    · next p hr =>
      obtain rfl := Except.ok.inj hm
      obtain ⟨hw,hp,-⟩ := walkFrom_of_reach hr
      exact ⟨p,hp,(walkFrom_put_of_free hw).2⟩
    · cases hm
  · split at h
    · next hd =>
      obtain rfl := Except.ok.inj h
      exact exists_isHome_of_isDir hd
    · cases h

theorem exists_isHome_of_makeDirs (h : d.makeDirs dir = .ok t) : ∃ q, t.IsHome dir q := by
  -- However far the climb went, the directory itself is made last, so no induction is needed.
  unfold makeDirs makeDirsFuel at h
  split at h
  · next hdir =>
    obtain rfl := Except.ok.inj h
    subst hdir
    exact ⟨[],by decide,by rw [Location.steps_empty]; rfl⟩
  · split at h
    · split at h
      · cases h
      · split at h
        · exact exists_isHome_of_ensureDir h
        · cases h
    · exact exists_isHome_of_ensureDir h

/-! A file written under one name and moved to another. -/

def moved (d : Disk) (q : List String) (draft name : String) (content : ByteArray) : Disk :=
  ((d.put (q ++ [draft]) (.file content)).put (q ++ [name]) (.file content)).without (q ++ [draft])

section Moved
variable {draft : String} {content : ByteArray}

theorem at?_moved (hne : draft ≠ name) (r : List String) :
    (d.moved q draft name content).at? r =
      if r = q ++ [name] then some (.file content)
      else if r = q ++ [draft] then none
      else d.at? r := by
  have hp : q ++ [name] ≠ q ++ [draft] := by simpa using hne.symm
  rw [moved,at?_without (by simp),at?_put _ (by simp),at?_put _ (by simp)]
  by_cases hr : r = q ++ [name]
  · subst hr
    simp only [if_neg hp,if_true]
  · by_cases hs : r = q ++ [draft]
    · simp only [if_pos hs,if_neg hr]
    · simp only [if_neg hs,if_neg hr]

variable (h : d.IsHome dir q) (hd : IsName draft) (hn : IsName name)
  (hdraft : d.at? (q ++ [draft]) ≠ some .dir) (hname : d.at? (q ++ [name]) ≠ some .dir)

include h hdraft in
theorem IsHome.put_file : (d.put (q ++ [draft]) (.file content)).IsHome dir q := by
  refine h.of_dirs fun r hr => ?_
  have hrd : r ≠ q ++ [draft] := fun e => hdraft (e ▸ hr)
  rw [at?_put d (by simp),if_neg hrd,hr]

include h hdraft hname in
theorem IsHome.moved (hne : draft ≠ name) : (d.moved q draft name content).IsHome dir q := by
  refine h.of_dirs fun r hr => ?_
  have hrn : r ≠ q ++ [name] := fun e => hname (e ▸ hr)
  have hrd : r ≠ q ++ [draft] := fun e => hdraft (e ▸ hr)
  rw [at?_moved hne,if_neg hrn,if_neg hrd,hr]

include h hd hn hdraft hname in
theorem IsHome.renameFile_join (hne : draft ≠ name)
    (hld : (Location.join dir draft).utf8ByteSize ≤ maxPlace)
    (hln : (Location.join dir name).utf8ByteSize ≤ maxPlace) :
    (d.put (q ++ [draft]) (.file content)).renameFile (Location.join dir draft)
      (Location.join dir name) = .ok (d.moved q draft name content) := by
  have hp : q ++ [name] ≠ q ++ [draft] := by simpa using hne.symm
  have hw : (d.put (q ++ [draft]) (.file content)).IsHome dir q := h.put_file hdraft
  have hdat : (d.put (q ++ [draft]) (.file content)).at? (q ++ [draft]) = some (.file content) := by
    rw [at?_put d (by simp),if_pos rfl]
  have hnat : (d.put (q ++ [draft]) (.file content)).at? (q ++ [name]) ≠ some .dir := by
    rwa [at?_put d (by simp),if_neg hp]
  -- The draft stands until both files do; only then it goes.
  have hkeep : ((d.put (q ++ [draft]) (.file content)).put (q ++ [name]) (.file content)).at?
      (q ++ [draft]) = some (.file content) := by
    rw [at?_put _ (by simp),if_neg hp.symm,hdat]
  rw [renameFile,hw.read_join hd hld hdat]
  simp only [bind,Except.bind]
  rw [hw.write_join hn hln hnat]
  exact (hw.put_file hnat).removeFile_join hd hld hkeep

end Moved

end Disk

end ImportResolution

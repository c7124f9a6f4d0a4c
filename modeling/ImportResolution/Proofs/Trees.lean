import ImportResolution.Cache.Store
import ImportResolution.Proofs.Keys
import ImportResolution.Proofs.Unindexed

/-! Disks as trees. Where every entry stands in a directory under a name of its own, the files below
a root are those that can be asked for by the place of the root and the names on the way. -/
namespace ImportResolution

namespace Location
open ImportResolution.Path (steps IsStep)

theorem steps_slash (a b : String) : steps (a ++ "/" ++ b) = steps a ++ steps b := by
  rw [steps,Path.segments_slash,List.filter_append]
  rfl

theorem steps_empty : steps "" = [] := by decide

theorem steps_of_step {s : String} (h : IsStep s) : steps s = [s] := by
  rw [steps,Path.segments_of_not_mem h.2.2]
  simp [h.1]

/-- A join of a step goes on from the base with a slash between, if there is none. -/
theorem exists_join_eq (base : String) {s : String} (hs : IsStep s) :
    ∃ front, join base s = front ++ s ∧ steps (join base s) = steps base ++ [s] ∧
      ∀ c, c ≠ '/' → Text.hasChar c front = Text.hasChar c base := by
  simp only [join,isAbsolute,not_isRooted_of_step hs,Bool.false_eq_true,if_false]
  split
  · next hb =>
    refine ⟨base,rfl,?_,fun _ _ => rfl⟩
    by_cases hne : base = ""
    · rw [hne,String.empty_append,steps_of_step hs,steps_empty]
      rfl
    · obtain ⟨t,ht⟩ := (Text.endsWith_iff "/" base).mp (hb.resolve_left hne)
      have hf : base = String.ofList t ++ "/" := by
        apply String.toList_inj.mp
        simp [← ht]
      have hk := steps_slash (String.ofList t) ""
      rw [String.append_empty,steps_empty,List.append_nil] at hk
      rw [hf,steps_slash,steps_of_step hs,hk]
  · refine ⟨base ++ "/",rfl,?_,?_⟩
    · rw [steps_slash,steps_of_step hs]
    · intro c hc
      simp [Text.hasChar,hc]

theorem steps_foldl_join {names : List String} (h : ∀ s ∈ names, IsStep s) (base : String) :
    steps (names.foldl join base) = steps base ++ names := by
  induction names generalizing base with
  | nil => simp
  | cons s rest ih =>
    obtain ⟨front,-,hs,-⟩ := exists_join_eq base (h s (.head _))
    rw [List.foldl_cons,ih (fun t ht => h t (.tail _ ht)),hs,List.append_assoc]
    rfl

/-- What a join of steps adds to its base is in the steps, and it does not end with a slash. -/
theorem hasChar_foldl_join {names : List String} (h : ∀ s ∈ names, IsStep s) {c : Char}
    (hc : c ≠ '/') (base : String) :
    Text.hasChar c (names.foldl join base) =
      (Text.hasChar c base || names.any (Text.hasChar c)) := by
  induction names generalizing base with
  | nil => simp
  | cons s rest ih =>
    obtain ⟨front,he,-,hf⟩ := exists_join_eq base (h s (.head _))
    have hs : Text.hasChar c (join base s) = (Text.hasChar c base || Text.hasChar c s) := by
      rw [he,← hf c hc]
      simp [Text.hasChar]
    rw [List.foldl_cons,ih (fun t ht => h t (.tail _ ht)),hs,List.any_cons,Bool.or_assoc]

theorem endsWith_foldl_join {names : List String} (h : ∀ s ∈ names, IsStep s) (hn : names ≠ [])
    (base : String) : Text.endsWith "/" (names.foldl join base) = false := by
  induction names generalizing base with
  | nil => exact absurd rfl hn
  | cons s rest ih =>
    cases rest with
    | cons t more => exact ih (fun u hu => h u (.tail _ hu)) (by simp) _
    | nil =>
      obtain ⟨front,he,-,-⟩ := exists_join_eq base (h s (.head _))
      obtain ⟨hne,-,hs⟩ := h s (.head _)
      rw [List.foldl_cons,List.foldl_nil,he,← Bool.not_eq_true,Text.endsWith_iff]
      rintro ⟨t,ht⟩
      -- The last character would be a slash of the last step.
      have hm : '/' ∈ s.toList.getLast? := by
        have hl := congrArg List.getLast? ht
        have hk : s.toList ≠ [] := by simpa using hne
        rw [String.toList_append,List.getLast?_append,List.getLast?_append] at hl
        cases hc : s.toList.getLast? with
        | none => exact absurd (List.getLast?_eq_none_iff.mp hc) hk
        | some c =>
          rw [hc] at hl
          simpa [eq_comm] using hl
      exact hs (List.mem_of_getLast? hm)

end Location

/-- A name that a directory can have. -/
structure Path.IsName (s : String) : Prop where
  isStep : IsStep s
  ne_up : s ≠ ".."
  plain : Text.hasChar nullChar s = false
  short : s.utf8ByteSize ≤ Disk.maxName

instance (s : String) : Decidable (Path.IsName s) :=
  decidable_of_iff ((s ≠ "" ∧ s ≠ "." ∧ '/' ∉ s.toList) ∧ s ≠ ".." ∧
      Text.hasChar nullChar s = false ∧ s.utf8ByteSize ≤ Disk.maxName)
    ⟨fun ⟨hs,hu,hp,hl⟩ => ⟨hs,hu,hp,hl⟩,fun h => ⟨h.isStep,h.ne_up,h.plain,h.short⟩⟩

namespace Disk
open ImportResolution.Path (steps IsStep IsName)
variable {d : Disk}

/-- Everything stands in a directory, once and under a name. -/
structure IsTree (d : Disk) : Prop where
  closed : d.Closed
  unique : (d.entries.map Prod.fst).Nodup
  named : ∀ e ∈ d.entries, ∀ s ∈ e.1, IsName s

theorem mem_of_at? {path : List String} {e : DiskEntry} (h : d.at? path = some e)
    (hn : path ≠ []) : (path,e) ∈ d.entries := by
  cases path with
  | nil => exact absurd rfl hn
  | cons s rest =>
    obtain ⟨front,back,hd,-⟩ := List.lookup_eq_some_iff.mp h
    rw [hd]
    simp

theorem closed_of_entries (h : ∀ e ∈ d.entries, d.at? e.1.dropLast = some .dir) : d.Closed := by
  intro path hp
  by_cases hn : path = []
  · rw [hn]
    rfl
  · obtain ⟨e,he⟩ := Option.ne_none_iff_exists'.mp hp
    exact h (path,e) (mem_of_at? he hn)

theorem lookup_of_mem {xs : List (List String × DiskEntry)} (hu : (xs.map Prod.fst).Nodup)
    {path : List String} {e : DiskEntry} (hm : (path,e) ∈ xs) : xs.lookup path = some e := by
  induction xs with
  | nil => cases hm
  | cons x rest ih =>
    rw [List.map_cons,List.nodup_cons] at hu
    rcases List.mem_cons.mp hm with rfl | hm
    · simp
    · have hne : (path == x.1) = false :=
        beq_false_of_ne fun he => hu.1 (he ▸ List.mem_map_of_mem hm)
      rw [List.lookup_cons,hne]
      exact ih hu.2 hm

theorem IsTree.at?_of_mem (h : d.IsTree) {path : List String} {e : DiskEntry}
    (hm : (path,e) ∈ d.entries) (hn : path ≠ []) : d.at? path = some e := by
  cases path with
  | nil => exact absurd rfl hn
  | cons s rest => exact lookup_of_mem h.unique hm

/-- On the way to what is there, everything is a directory. -/
theorem Closed.above (h : d.Closed) {path names : List String} (ha : d.at? (path ++ names) ≠ none)
    (hn : names ≠ []) : d.at? path = some .dir := by
  induction names generalizing path with
  | nil => exact absurd rfl hn
  | cons s rest ih =>
    have hs : d.at? (path ++ [s]) ≠ none := by
      cases rest with
      | nil => exact ha
      | cons t more =>
        have hk : d.at? (path ++ [s]) = some .dir := ih (by simpa using ha) (by simp)
        simp [hk]
    simpa using h (path ++ [s]) hs

/-! Walks. -/

theorem walkFrom_append (spot : Spot) (xs ys : List String) :
    d.walkFrom spot (xs ++ ys) = (d.walkFrom spot xs).bind fun t => d.walkFrom t ys :=
  List.foldlM_append

theorem walkFrom_cons (spot : Spot) (s : String) (names : List String) :
    d.walkFrom spot (s :: names) = (d.goOn spot s).bind fun t => d.walkFrom t names :=
  List.foldlM_cons

/-- A walk along names that comes to something comes to what is under them. -/
theorem at?_of_walkFrom {path p names : List String} {e f : DiskEntry}
    (hn : ∀ s ∈ names, s ≠ "." ∧ s ≠ "..")
    (h : d.walkFrom (.taken path e) names = .ok (.taken p f)) :
    p = path ++ names ∧ (names ≠ [] → e = .dir ∧ d.at? p = some f) := by
  induction names generalizing path e with
  | nil =>
    obtain ⟨rfl,rfl⟩ := Spot.taken.inj (Except.ok.inj h)
    simp
  | cons s rest ih =>
    obtain ⟨hd,hu⟩ := hn s (.head _)
    have hrest := fun t ht => hn t (.tail _ ht)
    rw [walkFrom_cons] at h
    cases e with
    | file content => cases h
    | dir =>
      simp only [goOn,if_neg hd,if_neg hu] at h
      split at h
      · cases h
      · cases ha : d.at? (path ++ [s]) with
        | none =>
          rw [ha] at h
          cases rest with
          | nil => cases h
          | cons t more => cases h
        | some e =>
          rw [ha] at h
          obtain ⟨rfl,hr⟩ := ih hrest h
          refine ⟨by simp,fun _ => ⟨rfl,?_⟩⟩
          cases rest with
          | nil =>
            obtain ⟨-,rfl⟩ := Spot.taken.inj (Except.ok.inj h)
            simpa using ha
          | cons t more => exact (hr (by simp)).2

/-- What is under names can be walked to. -/
theorem walkFrom_of_at? (hc : d.Closed) {path names : List String} {f : DiskEntry}
    (hs : ∀ s ∈ names, IsName s) (hn : names ≠ []) (h : d.at? (path ++ names) = some f) :
    d.walkFrom (.taken path .dir) names = .ok (.taken (path ++ names) f) := by
  induction names generalizing path with
  | nil => exact absurd rfl hn
  | cons s rest ih =>
    have hname := hs s (.head _)
    have hk : d.at? ((path ++ [s]) ++ rest) = some f := by simpa using h
    have hgo : ∀ {e}, d.at? (path ++ [s]) = some e →
        d.goOn (.taken path .dir) s = .ok (.taken (path ++ [s]) e) := by
      intro e he
      simp [goOn,hname.isStep.2.1,hname.ne_up,Nat.not_lt.mpr hname.short,he]
    rw [walkFrom_cons]
    cases rest with
    | nil =>
      rw [List.append_nil] at hk
      rw [hgo hk]
      rfl
    | cons t more =>
      have hdir : d.at? (path ++ [s]) = some .dir := hc.above (hk ▸ nofun) (List.cons_ne_nil t more)
      rw [hgo hdir]
      have hw := ih (fun u hu => hs u (.tail _ hu)) (List.cons_ne_nil t more) hk
      rw [List.append_assoc] at hw
      exact hw

/-! Places. -/

theorem walkFrom_of_reach {place : String} {spot : Spot} (h : d.reach place = .ok spot) :
    d.walkFrom (.taken [] .dir) (steps place) = .ok spot ∧
      Text.hasChar nullChar place = false ∧ place ≠ "" := by
  have hz : nullChar = Char.ofNat 0 := rfl
  unfold reach at h
  rw [hz]
  split at h
  · cases h
  · next hc =>
    split at h
    · cases h
    · next hn =>
      split at h
      · cases h
      · exact ⟨h,eq_false_of_ne_true hc,hn⟩

theorem reach_of_plain {place : String} (hc : Text.hasChar nullChar place = false)
    (hn : place ≠ "") (hl : place.utf8ByteSize ≤ maxPlace) :
    d.reach place = d.walkFrom (.taken [] .dir) (steps place) := by
  have hz : nullChar = Char.ofNat 0 := rfl
  rw [hz] at hc
  simp only [reach,hc,hn,Nat.not_lt.mpr hl,Bool.false_eq_true,if_false]
  rfl

theorem reach_of_locate {place : String} {spot : Spot} (h : d.locate place = .ok spot) :
    d.reach place = .ok spot := by
  unfold locate at h
  split at h
  · next hr =>
    split at h
    · cases h
    · rw [hr,h]
  · exact h

theorem locate_of_isFile {place : String} (h : d.isFile place = true) :
    ∃ path content, d.locate place = .ok (.taken path (.file content)) := by
  unfold isFile stat at h
  split at h
  · next path content hl => exact ⟨path,content,hl⟩
  all_goals cases h

theorem locate_of_isDir {place : String} (h : d.isDir place = true) :
    ∃ q, d.locate place = .ok (.taken q .dir) := by
  unfold isDir stat at h
  split at h
  · cases h
  · next q hl => exact ⟨q,hl⟩
  all_goals cases h

theorem locate_of_exists? {place : String} (h : d.exists? place = true) :
    ∃ path e, d.locate place = .ok (.taken path e) := by
  rcases Bool.or_eq_true_iff.mp h with h | h
  · obtain ⟨path,content,hl⟩ := locate_of_isFile h
    exact ⟨path,_,hl⟩
  · obtain ⟨path,hl⟩ := locate_of_isDir h
    exact ⟨path,_,hl⟩

section Below
variable {root : String} {names : List String}

theorem mem_below {e : DiskEntry} : (names,e) ∈ d.below root ↔
    ∃ path, d.locate root = .ok (.taken path .dir) ∧ names ≠ [] ∧
      (path ++ names,e) ∈ d.entries := by
  unfold below
  split
  · next path hl =>
    have hpath : ∀ p, d.locate root = .ok (.taken p .dir) ↔ p = path := by
      intro p
      rw [hl]
      exact ⟨fun h => (Spot.taken.inj (Except.ok.inj h)).1.symm,fun h => by rw [h]⟩
    simp only [hpath,exists_eq_left,List.mem_filterMap]
    constructor
    · rintro ⟨⟨q,f⟩,hm,hf⟩
      split at hf
      · cases hf
      · next rest hne hp =>
        obtain ⟨rfl,rfl⟩ := Prod.mk.inj (Option.some.inj hf)
        rw [Text.isPrefixOf?_eq_some_iff.mp hp]
        exact ⟨hne,hm⟩
      · cases hf
    · rintro ⟨hn,hm⟩
      refine ⟨_,hm,?_⟩
      have hp : path.isPrefixOf? (path ++ names) = some names :=
        Text.isPrefixOf?_eq_some_iff.mpr rfl
      simp only [hp]
  · next hl =>
    simp only [List.not_mem_nil,false_iff,not_exists,not_and]
    exact fun path hp => absurd hp (hl path)

theorem mem_filesBelow : names ∈ d.filesBelow root ↔
    ∃ path, d.locate root = .ok (.taken path .dir) ∧ names ≠ [] ∧
      ∃ content, (path ++ names,.file content) ∈ d.entries := by
  unfold filesBelow
  rw [List.mem_filterMap]
  constructor
  · rintro ⟨⟨q,f⟩,hm,hf⟩
    split at hf
    · next content he =>
      obtain rfl := Option.some.inj hf
      obtain ⟨path,hl,hn,hm⟩ := mem_below.mp hm
      exact ⟨path,hl,hn,content,he ▸ hm⟩
    · cases hf
  · rintro ⟨path,hl,hn,content,hm⟩
    exact ⟨(names,.file content),mem_below.mpr ⟨path,hl,hn,hm⟩,rfl⟩

/-- A file that is found by names behind a root stands below it. -/
theorem mem_filesBelow_of_isFile (hr : d.exists? root = true) (hn : names ≠ [])
    (hs : ∀ s ∈ names, IsStep s ∧ s ≠ "..")
    (h : d.isFile (names.foldl Location.join root) = true) : names ∈ d.filesBelow root := by
  obtain ⟨path,e,hroot⟩ := locate_of_exists? hr
  obtain ⟨p,content,hfile⟩ := locate_of_isFile h
  obtain ⟨hw,-,-⟩ := walkFrom_of_reach (reach_of_locate hroot)
  obtain ⟨hk,-,-⟩ := walkFrom_of_reach (reach_of_locate hfile)
  rw [Location.steps_foldl_join fun s hm => (hs s hm).1,walkFrom_append,hw] at hk
  obtain ⟨rfl,hp⟩ := at?_of_walkFrom (fun s hm => ⟨(hs s hm).1.2.1,(hs s hm).2⟩) hk
  obtain ⟨rfl,ha⟩ := hp hn
  exact mem_filesBelow.mpr ⟨path,hroot,hn,content,mem_of_at? ha (by simp [hn])⟩

/-- A file below a root is found by the names on the way, unless its place is too long. -/
theorem isFile_of_mem_filesBelow (hd : d.IsTree) (h : names ∈ d.filesBelow root)
    (hl : (names.foldl Location.join root).utf8ByteSize ≤ maxPlace) :
    d.isFile (names.foldl Location.join root) = true := by
  obtain ⟨path,hroot,hn,content,hm⟩ := mem_filesBelow.mp h
  have hnames : ∀ s ∈ names, IsName s := fun s hs =>
    hd.named _ hm s (List.mem_append_right _ hs)
  have hsteps : ∀ s ∈ names, IsStep s := fun s hs => (hnames s hs).isStep
  obtain ⟨hw,hc,-⟩ := walkFrom_of_reach (reach_of_locate hroot)
  have hplain : Text.hasChar nullChar (names.foldl Location.join root) = false := by
    rw [Location.hasChar_foldl_join hsteps (by decide),hc,Bool.false_or,List.any_eq_false]
    exact fun s hs => by simp [(hnames s hs).plain]
  have hne : names.foldl Location.join root ≠ "" := by
    intro he
    have hk := Location.steps_foldl_join hsteps root
    rw [he,Location.steps_empty] at hk
    simp [hn] at hk
  have hreach : d.reach (names.foldl Location.join root) =
      .ok (.taken (path ++ names) (.file content)) := by
    rw [reach_of_plain hplain hne hl,Location.steps_foldl_join hsteps,walkFrom_append,hw]
    exact walkFrom_of_at? hd.closed hnames hn (hd.at?_of_mem hm (by simp [hn]))
  simp [isFile,stat,locate,hreach,asksDirectory,Location.endsWith_foldl_join hsteps hn,Stat.isFile]

end Below

/-! Changes. -/

theorem isTree_empty : Disk.IsTree {} where
  closed := closed_of_entries fun _ he => by cases he
  unique := .nil
  named _ he := by cases he

/-- What is known of where a walk ends. -/
def Holds (d : Disk) : Spot → Prop
  | .taken path e => d.at? path = some e
  | .free path => ∃ dir name, path = dir ++ [name] ∧ d.at? dir = some .dir ∧
      d.at? path = none ∧ IsName name

theorem Holds.goOn (hd : d.IsTree) {spot t : Spot} (h : d.Holds spot) {s : String} (hs : s ≠ "")
    (hslash : '/' ∉ s.toList) (hz : Text.hasChar nullChar s = false)
    (hg : d.goOn spot s = .ok t) : d.Holds t := by
  cases spot with
  | free path => cases hg
  | taken path e =>
    cases e with
    | file content => cases hg
    | dir =>
      have h : d.at? path = some .dir := h
      simp only [Disk.goOn] at hg
      split at hg
      · obtain rfl := Except.ok.inj hg
        exact h
      · next hdot =>
        split at hg
        · obtain rfl := Except.ok.inj hg
          exact hd.closed path (by rw [h]; nofun)
        · next hup =>
          split at hg
          · cases hg
          · next hl =>
            split at hg
            · next e he =>
              obtain rfl := Except.ok.inj hg
              exact he
            · next hn =>
              obtain rfl := Except.ok.inj hg
              exact ⟨path,s,rfl,h,hn,⟨hs,hdot,hslash⟩,hup,hz,Nat.not_lt.mp hl⟩

theorem Holds.walkFrom (hd : d.IsTree) {names : List String}
    (hn : ∀ s ∈ names, s ≠ "" ∧ '/' ∉ s.toList ∧ Text.hasChar nullChar s = false) {spot t : Spot}
    (h : d.Holds spot) (hw : d.walkFrom spot names = .ok t) : d.Holds t := by
  induction names generalizing spot with
  | nil =>
    obtain rfl := Except.ok.inj hw
    exact h
  | cons s rest ih =>
    rw [walkFrom_cons] at hw
    cases hg : d.goOn spot s with
    | error e =>
      rw [hg] at hw
      cases hw
    | ok u =>
      rw [hg] at hw
      obtain ⟨hs,hslash,hz⟩ := hn s (.head _)
      exact ih (fun v hv => hn v (.tail _ hv)) (h.goOn hd hs hslash hz hg) hw

theorem holds_of_reach (hd : d.IsTree) {place : String} {spot : Spot}
    (h : d.reach place = .ok spot) : d.Holds spot := by
  obtain ⟨hw,hz,-⟩ := walkFrom_of_reach h
  refine Holds.walkFrom hd ?_ (show d.Holds (.taken [] .dir) from rfl) hw
  intro s hs
  obtain ⟨hs,hne⟩ := List.mem_filter.mp hs
  refine ⟨by simpa using hne,Path.not_mem_of_mem_segments hs,?_⟩
  rw [← Bool.not_eq_true,Text.hasChar,List.contains_iff_mem] at hz ⊢
  intro hm
  have hk := (Path.mem_toList_ofSegments (by decide) (Path.segments place)).mpr ⟨s,hs,hm⟩
  rw [Path.ofSegments_segments] at hk
  exact hz hk

/-- The names on the way to what is there. -/
theorem IsTree.isName (hd : d.IsTree) {path : List String} {e : DiskEntry}
    (h : d.at? path = some e) : ∀ s ∈ path, IsName s := by
  intro s hs
  exact hd.named _ (mem_of_at? h (List.ne_nil_of_mem hs)) s hs

/-- A new entry in a directory, or a file in the place of a file. -/
theorem IsTree.put (hd : d.IsTree) {dir : List String} {name : String} {e : DiskEntry}
    (hdir : d.at? dir = some .dir) (hname : IsName name)
    (he : d.at? (dir ++ [name]) ≠ some .dir) : (d.put (dir ++ [name]) e).IsTree where
  closed := by
    intro q hq
    rw [at?_put d (by simp)] at hq ⊢
    split at hq
    · next hp =>
      rw [hp,List.dropLast_concat,if_neg (by simp)]
      exact hdir
    · have hup := hd.closed q hq
      have hne : q.dropLast ≠ dir ++ [name] := fun hp => he (hp ▸ hup)
      rw [if_neg hne]
      exact hup
  unique := by
    rw [Disk.put,List.map_cons,List.nodup_cons]
    refine ⟨?_,hd.unique.sublist (List.filter_sublist.map _)⟩
    intro hm
    obtain ⟨x,hx,hp⟩ := List.mem_map.mp hm
    simpa [hp] using (List.mem_filter.mp hx).2
  named := by
    intro x hx s hs
    rcases List.mem_cons.mp hx with rfl | hx
    · rcases List.mem_append.mp hs with hs | hs
      · exact hd.isName hdir s hs
      · rw [List.mem_singleton.mp hs]
        exact hname
    · exact hd.named x (List.mem_filter.mp hx).1 s hs

theorem IsTree.makeDir (hd : d.IsTree) {place : String} {made : Disk}
    (h : d.makeDir place = .ok made) : made.IsTree := by
  unfold Disk.makeDir at h
  split at h
  · cases h
  · next path hr =>
    obtain ⟨dir,name,rfl,hdir,hn,hname⟩ := holds_of_reach hd hr
    obtain rfl := Except.ok.inj h
    exact hd.put hdir hname (by rw [hn]; nofun)
  · cases h

theorem IsTree.write (hd : d.IsTree) {place : String} {content : ByteArray} {written : Disk}
    (h : d.write place content = .ok written) : written.IsTree := by
  unfold Disk.write at h
  split at h
  · cases h
  · next path old hr =>
    have hat : d.at? path = some (.file old) := holds_of_reach hd hr
    have hn : path ≠ [] := fun hn => by
      rw [hn] at hat
      cases hat
    obtain ⟨dir,name,rfl⟩ : ∃ dir name, path = dir ++ [name] :=
      ⟨path.dropLast,path.getLast hn,(List.dropLast_concat_getLast hn).symm⟩
    split at h
    · cases h
    · obtain rfl := Except.ok.inj h
      refine hd.put (hd.closed.above (by rw [hat]; nofun) (by simp)) ?_ (by rw [hat]; nofun)
      exact hd.isName hat name (by simp)
  · next path hr =>
    obtain ⟨dir,name,rfl,hdir,hn,hname⟩ := holds_of_reach hd hr
    split at h
    · cases h
    · obtain rfl := Except.ok.inj h
      exact hd.put hdir hname (by rw [hn]; nofun)
  · cases h

theorem IsTree.ensureDir (hd : d.IsTree) {place : String} {made : Disk}
    (h : d.ensureDir place = .ok made) : made.IsTree := by
  unfold Disk.ensureDir at h
  split at h
  · next hm =>
    obtain rfl := Except.ok.inj h
    exact hd.makeDir hm
  · split at h
    · obtain rfl := Except.ok.inj h
      exact hd
    · cases h

theorem IsTree.makeDirsFuel (hd : d.IsTree) {fuel : Nat} {place : String} {made : Disk}
    (h : d.makeDirsFuel fuel place = .ok made) : made.IsTree := by
  induction fuel generalizing place made with
  | zero => cases h
  | succ fuel ih =>
    unfold Disk.makeDirsFuel at h
    split at h
    · obtain rfl := Except.ok.inj h
      exact hd
    · split at h
      · split at h
        · cases h
        · split at h
          · next above mid hm => exact (ih hm).ensureDir h
          · cases h
      · exact hd.ensureDir h

theorem IsTree.makeDirs (hd : d.IsTree) {place : String} {made : Disk}
    (h : d.makeDirs place = .ok made) : made.IsTree := hd.makeDirsFuel h

/-- Nothing stands in a file, so a file can go. -/
theorem IsTree.removeFile (hd : d.IsTree) {place : String} {left : Disk}
    (h : d.removeFile place = .ok left) : left.IsTree := by
  unfold Disk.removeFile at h
  split at h
  · next path content hl =>
    have hat : d.at? path = some (.file content) := holds_of_reach hd (reach_of_locate hl)
    obtain rfl := Except.ok.inj h
    refine ⟨closed_of_entries ?_,hd.unique.sublist (List.filter_sublist.map _),?_⟩
    · intro e he
      have hup : d.at? e.1.dropLast = some .dir := by
        by_cases hn : e.1 = []
        · rw [hn]
          rfl
        · exact hd.closed e.1 (by rw [hd.at?_of_mem (List.mem_filter.mp he).1 hn]; nofun)
      cases hq : e.1.dropLast with
      | nil => rfl
      | cons s rest =>
        rw [hq] at hup
        have hne : s :: rest ≠ path := by
          rintro rfl
          rw [hup] at hat
          cases hat
        exact (lookup_filter_ne hne d.entries).trans hup
    · exact fun e he => hd.named e (List.mem_filter.mp he).1
  all_goals cases h

theorem IsTree.renameFile (hd : d.IsTree) {source target : String} {moved : Disk}
    (h : d.renameFile source target = .ok moved) : moved.IsTree := by
  unfold Disk.renameFile at h
  cases hr : d.read source with
  | error e =>
    rw [hr] at h
    cases h
  | ok content =>
    rw [hr] at h
    cases hw : d.write target content with
    | error e =>
      simp only [bind,Except.bind,hw] at h
      cases h
    | ok written =>
      simp only [bind,Except.bind,hw] at h
      exact (hd.write hw).removeFile h

end Disk

/-- A save leaves a tree, also one that fails on its way. -/
theorem Cache.Store.isTree_save {d : Disk} (hd : d.IsTree) (dir : String) (c : Persisted) :
    (save d dir c).2.IsTree := by
  unfold save
  split
  · exact hd
  · next made hm =>
    have hmade := hd.makeDirs hm
    split
    · exact hmade
    · next written hw =>
      have hwritten := hmade.write hw
      split
      · exact hwritten
      · next moved hr => exact hwritten.renameFile hr

end ImportResolution

import ImportResolution.Proofs.Search

/-! What a specifier means by the rules alone, told without anything remembered. A search from a state
whose packages are true to the disk finds just this, and leaves them true. -/
namespace ImportResolution

-- No text is computed here, and no unifier should try to.
attribute [local irreducible] String.toList

/-- What is known of packages is what their manifests say. -/
structure PackageEntries.IsTrue (p : PackageEntries) (i : FileIndex) (v : DiskView)
    (root : String) : Prop where
  known : ∀ dir found, p.known.find? dir = some found → found = PackageEntry.entry? i v root dir

theorem PackageEntries.isTrue_empty (i : FileIndex) (v : DiskView) (root : String) :
    IsTrue {} i v root where
  known := by simp

/-- The entry of a directory that may hold a package. -/
def PackageEntry.admitted? (i : FileIndex) (v : DiskView) (root dir : String) : Option String :=
  if isAdmitted (Path.normalize dir) then entry? i v root (Path.normalize dir) else none

theorem PackageEntries.find_eq {p : PackageEntries} {i : FileIndex} {v : DiskView} {root : String}
    (h : p.IsTrue i v root) (dir : String) :
    (p.find i v root dir).1 = PackageEntry.admitted? i v root dir ∧
      (p.find i v root dir).2.IsTrue i v root := by
  simp only [find,PackageEntry.admitted?]
  cases PackageEntry.isAdmitted (Path.normalize dir) with
  | false => simpa using h
  | true =>
    simp only [Bool.not_true,Bool.false_eq_true,if_false,if_true]
    split
    · next found hk => exact ⟨h.known _ _ hk,h⟩
    · refine ⟨rfl,⟨?_⟩⟩
      intro d found hd
      rw [Table.find?_insert] at hd
      split at hd
      · next he => rw [he,Option.some.inj hd]
      · exact h.known d found hd

namespace Probe

/-- The purse alone decides what a search finds and how much it leaves. -/
theorem search_congr (site : ProbeSite) (cs : List String) {s t : ProbeState}
    (h : s.purse = t.purse) :
    (search site cs s).1 = (search site cs t).1 ∧
      (search site cs s).2.purse = (search site cs t).2.purse := by
  induction cs generalizing s t with
  | nil => exact ⟨rfl,h⟩
  | cons c rest ih =>
    simp only [search,h]
    split
    · exact ⟨rfl,rfl⟩
    · next purse hp =>
      split
      · exact ih rfl
      · next rel hw =>
        split
        · exact ⟨rfl,rfl⟩
        · exact ih rfl
        · cases (indexAnswer site rel).isSome
          all_goals
            simp only [look,Bool.false_eq_true,if_false,if_true]
            rcases purse.takeProbe with ⟨paid,left⟩
            cases paid
            · exact ⟨rfl,rfl⟩
            · cases site.view.isFile (Location.ofRelative site.root c)
              · exact ih rfl
              · exact ⟨rfl,rfl⟩

/-- Of a site, a search sees its root, its index and which places are files. -/
theorem search_agree {site other : ProbeSite} (hr : site.root = other.root)
    (hi : site.index = other.index) (hf : ∀ place, site.view.isFile place = other.view.isFile place)
    (cs : List String) (s : ProbeState) : search site cs s = search other cs s := by
  induction cs generalizing s with
  | nil => rfl
  | cons c rest ih =>
    simp only [search,look,indexAnswer,hr,hi,hf,ih]

theorem find_agree {site other : ProbeSite} (hr : site.root = other.root)
    (hi : site.index = other.index) (hf : ∀ place, site.view.isFile place = other.view.isFile place)
    (spec : String) (importer : Importer) (s : ProbeState) :
    find site spec importer s = find other spec importer s :=
  search_agree hr hi hf _ _

theorem find_congr (site : ProbeSite) (spec : String) (importer : Importer) {s t : ProbeState}
    (h : s.purse = t.purse) : (find site spec importer s).1 = (find site spec importer t).1 := by
  simp only [find,h]
  exact (search_congr site _ (by rfl)).1

end Probe

namespace Cache.Entry

/-- An entry without what depends on the way its specifier was met: the reason with the budgets that
ran out, and the moment. -/
def bare (e : Entry) : Entry := { e with reason := none, exhausted := [], expiresAt := none }

/-- An outcome in the repository names its file. -/
def IsWhole (e : Entry) : Prop :=
  e.resolvedType.isInRepo = true → ∃ path, e.resolvedPath = some path

end Cache.Entry

namespace Run
section Answer
variable (r : Rules) (q : Query)

def packaged? (dir : String) : Option String :=
  if Path.hasExtension dir || !r.settings.resolver.enablePackageEntries then none
  else PackageEntry.admitted? r.files r.site.view r.site.root dir

def located? : Option String :=
  let base := Relative.base q.spec q.importer
  ((Relative.resolve? r.files q.spec base q.importer).or (r.files.candidate? base)).or
    (packaged? r base)

/-- What the build context makes of a specifier, by its normal form alone. -/
def classified? : Option Classification :=
  if r.build.isEnabled then r.build.classify? r.files ⟨q.importer,q.spec,q.raw,q.profile⟩ else none

def awaited? : Option Artifact.Match :=
  ((classified? r q).bind (·.artifact)).or
    (if r.build.isEnabled then r.build.expected.match? q.importer.rel q.spec else none)

/-- A file on the disk outside the index, with a full purse. -/
def probed? : Option String := (Probe.find r.site q.spec q.importer { purse := Purse.of r.policy }).1

def probedEntry : Cache.Entry :=
  if External.isAbsoluteExternal r.files q.spec q.importer then { resolvedType := .external }
  else
    match probed? r q with
    | some path => { resolvedType := .external, fallbackPath := some path, isEphemeral := true }
    | none => { resolvedType := .unresolved }

def pathEntry : Cache.Entry :=
  match located? r q with
  | some path => .found .relative path
  | none => if (awaited? r q).any (·.isIndexed) then { resolvedType := .unresolved } else probedEntry r q

def aliased? (target : String) : Option String :=
  (r.files.candidate? target).or (packaged? r target)

def bareEntry : Cache.Entry :=
  match mappedPath? r q with
  | some hit =>
    { Cache.Entry.found .tsPath hit.path with
        tsPathPattern := hit.pattern, tsconfigPath := some hit.tsconfigRel }
  | none =>
    match (r.aliases.candidates q.spec).findSome? (aliased? r) with
    | some path => .found .pluginAlias path
    | none =>
      match Bare.resolve? r.files q.spec q.importer r.names with
      | some h => .found h.type h.path
      | none => { resolvedType := .external, packageName := Specifier.packageName? q.spec }

/-- The outcome of a specifier by the rules, without the moment it lives to. -/
def answer : Cache.Entry :=
  if Specifier.isPathBased q.spec then pathEntry r q else bareEntry r q

end Answer

section Computing
variable {r : Rules} {s : State}

/-- The packages that a state knows are true to the disk. -/
abbrev State.HasTruePackages (r : Rules) (s : State) : Prop :=
  s.packages.IsTrue r.files r.site.view r.site.root

theorem packageEntry_eq (h : s.HasTruePackages r) (dir : String) :
    (packageEntry r dir s).1 = packaged? r dir ∧
      (packageEntry r dir s).2.HasTruePackages r := by
  simp only [packageEntry,packaged?]
  cases Path.hasExtension dir || !r.settings.resolver.enablePackageEntries with
  | true => exact ⟨rfl,h⟩
  | false => exact PackageEntries.find_eq h dir

theorem locate_eq (h : s.HasTruePackages r) (q : Query) :
    (locate r q s).1 = located? r q ∧ (locate r q s).2.HasTruePackages r := by
  simp only [locate,located?]
  generalize Relative.resolve? r.files q.spec (Relative.base q.spec q.importer) q.importer = byLanguage
  have hs : State.HasTruePackages r
      { s with stages := s.stages.attempted .languageResolver byLanguage.isSome } := h
  cases byLanguage.or (r.files.candidate? (Relative.base q.spec q.importer)) with
  | some path => exact ⟨rfl,h⟩
  | none => exact packageEntry_eq hs _

theorem aliased_eq (h : s.HasTruePackages r) (target : String) :
    (aliased r target s).1 = aliased? r target ∧ (aliased r target s).2.HasTruePackages r := by
  unfold aliased aliased?
  cases r.files.candidate? target with
  | some path => exact ⟨rfl,h⟩
  | none => exact packageEntry_eq h target

theorem firstAliased_eq (h : s.HasTruePackages r) (targets : List String) :
    (firstAliased r targets s).1 = targets.findSome? (aliased? r) ∧
      (firstAliased r targets s).2.HasTruePackages r := by
  induction targets generalizing s with
  | nil => exact ⟨rfl,h⟩
  | cons target rest ih =>
    obtain ⟨hf,ht⟩ := aliased_eq h target
    rw [firstAliased,List.findSome?_cons,← hf]
    cases hc : (aliased r target s).1 with
    | some path => exact ⟨by simp [hc],by simpa [hc] using ht⟩
    | none => simpa [hc] using ih ht

theorem askBuild_fresh (q : Query) (purse : Purse) (s : State) :
    (askBuild r q { purse } s).1 = classified? r q ∧
      (askBuild r q { purse } s).2.1.purse = purse := by
  simp only [askBuild,classified?]
  split <;> exact ⟨rfl,rfl⟩

theorem generatedMatch_fresh (q : Query) (purse : Purse) (s : State) :
    (generatedMatch r q { purse } s).1 = awaited? r q ∧
      (generatedMatch r q { purse } s).2.1.purse = purse := by
  obtain ⟨hv,hp⟩ := askBuild_fresh (r := r) q purse s
  simp only [generatedMatch,awaited?,hv,hp,and_self]

theorem probe_fresh (q : Query) {e : Effort} (he : e.purse = Purse.of r.policy) (s : State) :
    (probe r q e s).1 = probedEntry r q ∧ (probe r q e s).2.2.packages = s.packages := by
  have hp := Probe.find_congr r.site q.spec q.importer
    (s := { purse := e.purse, usage := s.usage }) (t := { purse := Purse.of r.policy }) he
  simp only [probe,probedEntry,probed?]
  cases External.isAbsoluteExternal r.files q.spec q.importer with
  | true => exact ⟨rfl,rfl⟩
  | false =>
    rw [← hp]
    exact ⟨rfl,rfl⟩

theorem seek_eq (h : s.HasTruePackages r) (q : Query) :
    (seek r q { purse := Purse.of r.policy } s).1 =
        (if (awaited? r q).any (·.isIndexed) then { resolvedType := .unresolved }
          else probedEntry r q) ∧
      (seek r q { purse := Purse.of r.policy } s).2.2.HasTruePackages r := by
  obtain ⟨hg,he⟩ := generatedMatch_fresh (r := r) q (Purse.of r.policy) s
  have hk := generatedMatch_packages r q { purse := Purse.of r.policy } s
  simp only [seek]
  generalize generatedMatch r q { purse := Purse.of r.policy } s = found at hg he hk ⊢
  obtain ⟨generated,e,t⟩ := found
  simp only at hg he hk ⊢
  have ht : t.HasTruePackages r := by rwa [State.HasTruePackages,hk]
  obtain ⟨hp,hs⟩ := probe_fresh q he t
  subst hg
  cases (awaited? r q).any (·.isIndexed) with
  | true => exact ⟨rfl,ht⟩
  | false =>
    simp only [Bool.false_eq_true,if_false]
    have hq : (probe r q e t).2.2.HasTruePackages r := by rwa [State.HasTruePackages,hs]
    cases (probe r q e t).2.1.purse.isExhausted with
    | true => exact ⟨hp,hq⟩
    | false => exact ⟨hp,hq⟩

theorem computePath_eq (h : s.HasTruePackages r) (q : Query) :
    (computePath r q { purse := Purse.of r.policy } s).1 = pathEntry r q ∧
      (computePath r q { purse := Purse.of r.policy } s).2.2.HasTruePackages r := by
  obtain ⟨hf,ht⟩ := locate_eq h q
  simp only [computePath,pathEntry,← hf]
  generalize locate r q s = found at ht ⊢
  obtain ⟨path,t⟩ := found
  cases path with
  | some path => exact ⟨rfl,ht⟩
  | none => exact seek_eq ht q

theorem computeBare_eq (h : s.HasTruePackages r) (q : Query) :
    (computeBare r q s).1 = bareEntry r q ∧ (computeBare r q s).2.HasTruePackages r := by
  obtain ⟨hf,ht⟩ := firstAliased_eq h (r.aliases.candidates q.spec)
  simp only [computeBare,bareEntry,← hf]
  cases mappedPath? r q with
  | some hit => exact ⟨rfl,h⟩
  | none =>
    generalize firstAliased r (r.aliases.candidates q.spec) s = found at ht ⊢
    obtain ⟨path,t⟩ := found
    cases path with
    | some path => exact ⟨rfl,ht⟩
    | none =>
      simp only
      cases Bare.resolve? r.files q.spec q.importer r.names with
      | some hit => exact ⟨rfl,ht⟩
      | none => exact ⟨rfl,ht⟩

/-- With a full purse, a search finds what the specifier means. -/
theorem compute_eq (h : s.HasTruePackages r) (q : Query) :
    (compute r q { purse := Purse.of r.policy } s).1 =
        { answer r q with expiresAt := expiresAt r (answer r q) } ∧
      (compute r q { purse := Purse.of r.policy } s).2.2.HasTruePackages r := by
  simp only [compute,answer]
  cases Specifier.isPathBased q.spec with
  | true =>
    obtain ⟨hf,ht⟩ := computePath_eq h q
    simp only [if_true,hf,true_and]
    exact ht
  | false =>
    obtain ⟨hf,ht⟩ := computeBare_eq h q
    simp only [Bool.false_eq_true,if_false,hf,true_and]
    exact ht

end Computing

section Shape
variable (r : Rules) (q : Query)

theorem answer_bare : (answer r q).bare = answer r q := by
  unfold answer pathEntry bareEntry probedEntry
  split
  · split
    · rfl
    · split
      · rfl
      · split
        · rfl
        · split <;> rfl
  · split
    · rfl
    · split
      · rfl
      · split <;> rfl

theorem answer_isWhole : (answer r q).IsWhole := by
  unfold answer pathEntry bareEntry probedEntry Cache.Entry.IsWhole
  split
  · split
    · exact fun _ => ⟨_,rfl⟩
    · split
      · exact fun h => absurd h Bool.false_ne_true
      · split
        · exact fun h => absurd h Bool.false_ne_true
        · split <;> exact fun h => absurd h Bool.false_ne_true
  · split
    · exact fun _ => ⟨_,rfl⟩
    · split
      · exact fun _ => ⟨_,rfl⟩
      · split
        · exact fun _ => ⟨_,rfl⟩
        · exact fun h => absurd h Bool.false_ne_true

end Shape

section Written
variable {r : Rules}

/-- Those who classify, if any do, are asked in the one order. -/
def Rules.IsOrdered (r : Rules) : Prop :=
  r.build.classifiers = Classifier.all ∨ r.build.classifiers = []

/-- The output of the compiler that a specifier names. -/
def emitted? (i : FileIndex) (u : Unresolved) : Option Artifact.Match :=
  if u.importer.ecosystem == .javaScript then
    u.profile.bind fun p => Emit.match? i p u.spec u.importer
  else none

/-- What is awaited of all who classify, told without the way the specifier is written. -/
theorem classify?_awaited {b : BuildContext} (hb : b.classifiers = Classifier.all) (i : FileIndex)
    {u : Unresolved} (hu : u.spec ≠ "") :
    ((b.classify? i u).bind (·.artifact)).or (b.expected.match? u.importer.rel u.spec) =
      (if BuildContext.isLabelGap u then none else emitted? i u).or
        (b.expected.match? u.importer.rel u.spec) := by
  simp only [BuildContext.classify?,hb,Classifier.all,List.findSome?_cons,List.findSome?_nil,
    BuildContext.classifyBy,emitted?,hu,if_false]
  cases BuildContext.isLabelGap u with
  | true => simp
  | false =>
    generalize b.expected.match? u.importer.rel u.spec = expected
    by_cases hn : u.importer.ecosystem = .nix
    · -- Nothing is compiled here; a flake ends the search as the lack of an artifact would.
      have hj : (u.importer.ecosystem == .javaScript) = false := by rw [hn]; rfl
      simp only [hj,Bool.false_eq_true,if_false]
      generalize (Flake.isReference u.spec || Flake.isReference (Text.trim u.rawSpec)) = reference
      cases (u.importer.ecosystem == .nix && reference) <;> cases expected <;> rfl
    · have hf : (u.importer.ecosystem == .nix) = false := by simpa using hn
      simp only [hf,Bool.false_and,Bool.false_eq_true,if_false]
      generalize (u.profile.bind fun p => Emit.match? i p u.spec u.importer) = emitted
      cases u.importer.ecosystem == .javaScript <;> cases emitted <;> cases expected <;> rfl

/-- The way a specifier is written matters to flakes alone, which await no file. -/
theorem awaited?_raw (hr : r.IsOrdered) {q : Query} (hq : q.spec ≠ "") (raw : String) :
    awaited? r { q with raw } = awaited? r q := by
  unfold awaited? classified?
  rcases hr with hb | hb
  · have he : r.build.isEnabled = true := by simp [BuildContext.isEnabled,hb,Classifier.all]
    simp only [he,if_true]
    rw [classify?_awaited hb r.files (u := ⟨q.importer,q.spec,raw,q.profile⟩) hq,
      classify?_awaited hb r.files (u := ⟨q.importer,q.spec,q.raw,q.profile⟩) hq]
    rfl
  · have he : r.build.isEnabled = false := by simp [BuildContext.isEnabled,hb]
    simp [he]

theorem answer_raw (hr : r.IsOrdered) {q : Query} (hq : q.spec ≠ "") (raw : String) :
    answer r { q with raw } = answer r q := by
  have ha := awaited?_raw hr hq raw
  unfold answer pathEntry
  rw [ha]
  rfl

end Written

/-- Two sets of rules under which every specifier means the same. -/
structure Rules.Agree (r t : Rules) : Prop where
  resolver : r.settings.resolver = t.settings.resolver
  files : r.files = t.files
  root : r.site.root = t.site.root
  index : r.site.index = t.site.index
  isFile : ∀ place, r.site.view.isFile place = t.site.view.isFile place
  package : ∀ dir, packaged? r dir = packaged? t dir
  aliases : r.aliases = t.aliases
  build : r.build = t.build
  policy : r.policy = t.policy
  names : r.names = t.names

namespace Rules.Agree
variable {r t : Rules}

theorem probed? (h : r.Agree t) (q : Query) : probed? r q = probed? t q := by
  simp only [Run.probed?,h.policy]
  rw [Probe.find_agree h.root h.index h.isFile]

theorem located? (h : r.Agree t) (q : Query) : located? r q = located? t q := by
  simp only [Run.located?,h.files,h.package]

theorem awaited? (h : r.Agree t) (q : Query) : awaited? r q = awaited? t q := by
  unfold Run.awaited? classified?
  rw [h.build,h.files]

theorem probedEntry (h : r.Agree t) (q : Query) : probedEntry r q = probedEntry t q := by
  unfold Run.probedEntry
  rw [h.files,h.probed?]

theorem pathEntry (h : r.Agree t) (q : Query) : pathEntry r q = pathEntry t q := by
  simp only [Run.pathEntry,h.located?,h.awaited?,h.probedEntry]

theorem bareEntry (h : r.Agree t) (q : Query) : bareEntry r q = bareEntry t q := by
  have ha : aliased? r = aliased? t := by
    funext target
    simp only [aliased?,h.files,h.package]
  simp only [Run.bareEntry,mappedPath?,ha,h.resolver,h.files,h.aliases,h.names]

theorem answer (h : r.Agree t) (q : Query) : answer r q = answer t q := by
  simp only [Run.answer,h.pathEntry,h.bareEntry]

end Rules.Agree
end Run
end ImportResolution

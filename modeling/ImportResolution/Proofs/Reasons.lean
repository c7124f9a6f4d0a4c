import ImportResolution.Proofs.Reuse
import ImportResolution.Proofs.Sequence
import ImportResolution.Proofs.Taxonomy

/-! Reasons of unresolved specifiers. A cache knows specifiers by their normal form, and a reason that
it holds is the one that the specifier has on its own, or that of noise: what counts as noise depends
on the way a specifier is written, and nothing else of a reason does. -/
namespace ImportResolution

-- No text is computed here, and no unifier should try to.
attribute [local irreducible] String.toList

/-! References to flakes start with a letter, which no specifier that is a path does. -/

def IsLetter (c : Char) : Prop :=
  65 ≤ c.toNat ∧ c.toNat ≤ 90 ∨ 97 ≤ c.toNat ∧ c.toNat ≤ 122

instance (c : Char) : Decidable (IsLetter c) := inferInstanceAs (Decidable (_ ∨ _))

namespace IsLetter
variable {c : Char} (h : IsLetter c)
include h

theorem ne {d : Char} (hd : ¬IsLetter d) : c ≠ d := fun he => hd (he ▸ h)

theorem isBlank : Text.isBlank c = false := by
  unfold IsLetter at h
  simp only [Text.isBlank,Bool.or_eq_false_iff,Bool.and_eq_false_iff,decide_eq_false_iff_not]
  omega

theorem isQuote : Specifier.isQuote c = false := by
  have hn : c.toNat ≠ 96 := by
    unfold IsLetter at h
    omega
  simp [Specifier.isQuote,h.ne (d := '"') (by decide),h.ne (d := '\'') (by decide),hn]

theorem dropSuffixes {r : List Char} :
    ∃ t, Specifier.dropSuffixes (c :: r) = c :: t := by
  have hc : (c :: r).takeWhile (· ≠ '?') = c :: r.takeWhile (· ≠ '?') := by
    simp [h.ne (d := '?') (by decide)]
  exact ⟨_,by rw [Specifier.dropSuffixes,hc]⟩

/-- A specifier keeps the letter that it starts with. -/
theorem normalize {raw : String} (hs : StartsBy c (Text.trim raw)) :
    StartsBy c (Specifier.normalize raw) := by
  obtain ⟨r,hr⟩ := ((hs.trimWhere h.isQuote).trimWhere h.isBlank).toPosix (h.ne (by decide))
  obtain ⟨t,ht⟩ := h.dropSuffixes (r := r)
  apply StartsBy.trimWhere _ h.isBlank
  exact ⟨t,by
    rw [String.toList_ofList]
    exact (congrArg Specifier.dropSuffixes hr).trans ht⟩

theorem not_isPathBased {s : String} (hs : StartsBy c s) : Specifier.isPathBased s = false := by
  have hd : ∀ d : Char, ¬IsLetter d → Text.startsWith (String.singleton d) s = false := by
    intro d hn
    exact hs.startsWith_eq_false ⟨[],String.toList_singleton d⟩ (h.ne hn)
  have hdot : Text.startsWith "." s = false := hd '.' (by decide)
  have hslash : Text.startsWith "/" s = false := hd '/' (by decide)
  simp [Specifier.isPathBased,Specifier.kind,hdot,hslash,Specifier.Kind.isPathBased]

end IsLetter

theorem isLetter_of_lowerAsciiChar {c : Char}
    (h : 97 ≤ (Text.lowerAsciiChar c).toNat ∧ (Text.lowerAsciiChar c).toNat ≤ 122) : IsLetter c := by
  unfold Text.lowerAsciiChar at h
  split at h
  · next hc => exact .inl hc
  · exact .inr h

/-- Texts in small letters that start with one. -/
def startsSmall (s : String) : Bool :=
  s.toList.head?.any fun c => 97 ≤ c.toNat && c.toNat ≤ 122

theorem exists_letter_of_lowerAscii {s : String} (h : startsSmall (Text.lowerAscii s) = true) :
    ∃ c, IsLetter c ∧ StartsBy c s := by
  rw [startsSmall,Text.toList_lowerAscii] at h
  cases hs : s.toList with
  | nil => simp [hs] at h
  | cons c r =>
    simp only [hs,List.map_cons,List.head?_cons,Option.any_some,Bool.and_eq_true,
      decide_eq_true_eq] at h
    exact ⟨c,isLetter_of_lowerAsciiChar h,r,hs⟩

theorem startsSmall_of_startsWith {head s : String} (hh : startsSmall head = true)
    (h : Text.startsWith head s = true) : startsSmall s = true := by
  obtain ⟨r,hr⟩ := (Text.startsWith_iff head s).mp h
  rw [startsSmall] at hh ⊢
  rw [← hr]
  cases hc : head.toList with
  | nil => simp [hc] at hh
  | cons c t => simpa [hc] using hh

/-- A reference to a flake starts with a letter. -/
theorem Flake.exists_letter {s : String} (h : isReference s = true) :
    ∃ c, IsLetter c ∧ StartsBy c s := by
  apply exists_letter_of_lowerAscii
  simp only [isReference,Bool.or_eq_true,beq_iff_eq,List.any_eq_true] at h
  have hschemes : ∀ x ∈ schemes, startsSmall x = true := by decide +kernel
  rcases h with ((⟨x,hx,h⟩ | h) | h) | h
  · exact startsSmall_of_startsWith (hschemes x hx) h
  · rw [h]
    decide +kernel
  · exact startsSmall_of_startsWith (by decide +kernel) h
  · exact startsSmall_of_startsWith (by decide +kernel) h

/-- However a path is written, it refers to no flake. -/
theorem Flake.isReference_of_isPathBased {raw : String}
    (h : Specifier.isPathBased (Specifier.normalize raw) = true) :
    isReference (Text.trim raw) = false := by
  apply Decidable.byContradiction
  intro hn
  obtain ⟨c,hc,hs⟩ := Flake.exists_letter (Bool.not_eq_false _ ▸ hn)
  rw [hc.not_isPathBased (hc.normalize hs)] at h
  cases h

theorem Probe.find_purse (site : ProbeSite) (spec : String) (importer : Importer)
    {s t : ProbeState} (h : s.purse = t.purse) :
    (find site spec importer s).2.purse = (find site spec importer t).2.purse := by
  simp only [find,h]
  exact (search_congr site _ (by rfl)).2

namespace Run

section Diagnosis
variable (r : Rules) (q : Query)

/-- Whether the search for a file outside the index runs out of its purse. Where a file of the index
awaits its output no search is made. -/
def spent : Bool :=
  !(awaited? r q).any (·.isIndexed) &&
    (Probe.find r.site q.spec q.importer { purse := Purse.of r.policy }).2.purse.isExhausted

def isNoise : Bool := r.noise.isNoise q.spec q.raw q.importer

/-- The reason of an unresolved specifier on its own, with nothing remembered. -/
def ownReason : ReasonCode :=
  Diagnosis.reason ⟨q.spec,q.importer,isNoise r q,(classified? r q).map (·.reason),spent r q⟩

/-- The same, were the specifier no noise. -/
def plainReason : ReasonCode :=
  Diagnosis.reason ⟨q.spec,q.importer,false,(classified? r q).map (·.reason),spent r q⟩

theorem ownReason_of_noise (h : isNoise r q = true) : ownReason r q = .parserNoiseSuppressed := by
  simp [ownReason,Diagnosis.reason,h]

theorem ownReason_of_not_noise (h : isNoise r q = false) : ownReason r q = plainReason r q := by
  rw [ownReason,plainReason,h]

theorem classify?_reason {b : BuildContext} {i : FileIndex} {u : Unresolved} {c : Classification}
    (h : b.classify? i u = some c) : c.reason ≠ .parserNoiseSuppressed := by
  obtain ⟨classifier,-,hc⟩ := List.exists_of_findSome?_eq_some h
  cases classifier with
  | label =>
    simp only [BuildContext.classifyBy] at hc
    split at hc <;> cases hc
    simp
  | flake =>
    simp only [BuildContext.classifyBy] at hc
    split at hc <;> cases hc
    simp
  | emit =>
    simp only [BuildContext.classifyBy] at hc
    split at hc
    · obtain ⟨m,-,rfl⟩ := Option.map_eq_some_iff.mp hc
      simp
    · cases hc
  | artifact =>
    obtain ⟨m,-,rfl⟩ := Option.map_eq_some_iff.mp hc
    simp

/-- Only noise is called noise. -/
theorem plainReason_ne : plainReason r q ≠ .parserNoiseSuppressed := by
  simp only [plainReason,Diagnosis.reason,Bool.false_eq_true,if_false]
  split
  · simp
  · split
    · next code hc =>
      obtain ⟨c,hk,rfl⟩ := Option.map_eq_some_iff.mp hc
      unfold classified? at hk
      split at hk
      · exact classify?_reason hk
      · cases hk
    · split
      · simp
      · split
        · simp
        · split <;> simp

theorem isPathBased_of_unresolved (h : (answer r q).resolvedType = .unresolved) :
    Specifier.isPathBased q.spec = true := by
  unfold answer at h
  split at h
  · assumption
  · unfold bareEntry at h
    split at h
    · cases h
    · split at h
      · cases h
      · split at h
        · next hit hb =>
          obtain ⟨path,-,rfl⟩ := Option.map_eq_some_iff.mp hb
          revert h
          simp only [Cache.Entry.found]
          cases q.importer.ecosystem <;> exact nofun
        · cases h

end Diagnosis

section Effort
variable {r : Rules} {q : Query} {s : State}

theorem askBuild_verdict (q : Query) (purse : Purse) (s : State) :
    (askBuild r q { purse } s).2.1.verdict = some (classified? r q) := by
  simp only [askBuild,classified?]
  split <;> rfl

theorem seek_effort (hu : (if (awaited? r q).any (·.isIndexed) then
      ({ resolvedType := .unresolved } : Cache.Entry) else probedEntry r q).resolvedType =
        .unresolved) (s : State) :
    let e := (seek r q { purse := Purse.of r.policy } s).2.1
    e.verdict = some (classified? r q) ∧ e.purse.isExhausted = spent r q := by
  obtain ⟨hg,he⟩ := generatedMatch_fresh (r := r) q (Purse.of r.policy) s
  have hv : (generatedMatch r q { purse := Purse.of r.policy } s).2.1.verdict =
      some (classified? r q) := askBuild_verdict q _ s
  simp only [seek]
  generalize generatedMatch r q { purse := Purse.of r.policy } s = found at hg he hv ⊢
  obtain ⟨generated,e,t⟩ := found
  simp only at hg he hv ⊢
  subst hg
  unfold spent
  cases ha : (awaited? r q).any (·.isIndexed) with
  | true =>
    simp only [if_true,hv,he,Bool.not_true,Bool.false_and,true_and]
    rfl
  | false =>
    simp only [ha,Bool.false_eq_true,if_false] at hu
    have hx : External.isAbsoluteExternal r.files q.spec q.importer = false := by
      unfold probedEntry at hu
      split at hu
      · cases hu
      · next hx => exact eq_false_of_ne_true hx
    have hp := Probe.find_purse r.site q.spec q.importer
      (s := { purse := e.purse, usage := t.usage }) (t := { purse := Purse.of r.policy }) he
    simp only [Bool.false_eq_true,if_false,probe,hx,Bool.not_false,Bool.true_and]
    split <;> exact ⟨hv,congrArg Purse.isExhausted hp⟩

/-- The effort made for an unresolved specifier tells what its reason is made of. -/
theorem compute_effort (hs : s.HasTruePackages r) (hu : (answer r q).resolvedType = .unresolved) :
    let e := (compute r q { purse := Purse.of r.policy } s).2.1
    e.verdict = some (classified? r q) ∧ e.purse.isExhausted = spent r q := by
  have hpath := isPathBased_of_unresolved r q hu
  obtain ⟨hl,-⟩ := locate_eq hs q
  simp only [answer,compute,computePath,hpath,if_true,pathEntry,← hl] at hu ⊢
  generalize locate r q s = found at hu ⊢
  obtain ⟨path,t⟩ := found
  cases path with
  | some path => cases hu
  | none => exact seek_effort hu t

end Effort

section Spelling
variable {r : Rules} {q : Query}

theorem spec_ne_of_isPathBased {spec : String} (h : Specifier.isPathBased spec = true) :
    spec ≠ "" := by
  rintro rfl
  revert h
  decide +kernel

/-- The build context says the same of a path, however it is written. -/
theorem classified?_raw (hp : Specifier.isPathBased q.spec = true)
    (hq : q.spec = Specifier.normalize q.raw) {raw : String} (hr : q.spec = Specifier.normalize raw) :
    classified? r { q with raw } = classified? r q := by
  have hflake : ∀ raw, q.spec = Specifier.normalize raw →
      Flake.isReference (Text.trim raw) = false := by
    intro raw hr
    rw [hr] at hp
    exact Flake.isReference_of_isPathBased hp
  have hs := spec_ne_of_isPathBased hp
  unfold classified? BuildContext.classify?
  congr 2
  funext classifier
  cases classifier with
  | label => rfl
  | flake => simp only [BuildContext.classifyBy,hflake raw hr,hflake q.raw hq]
  | emit => rfl
  | artifact => simp only [BuildContext.classifyBy,hs,if_false]

/-- Noise apart, the reason of a path does not depend on the way it is written. -/
theorem plainReason_raw (hp : Specifier.isPathBased q.spec = true)
    (hq : q.spec = Specifier.normalize q.raw) {raw : String} (hr : q.spec = Specifier.normalize raw) :
    plainReason r { q with raw } = plainReason r q := by
  have hc := classified?_raw (r := r) hp hq hr
  simp only [plainReason,spent,awaited?,hc]

end Spelling

section Agreement
variable {r t : Rules} (h : r.Agree t) (hn : r.noise = t.noise) (q : Query)
include h

theorem Rules.Agree.plainReason : plainReason r q = plainReason t q := by
  have hc : classified? r q = classified? t q := by
    unfold classified?
    rw [h.build,h.files]
  have hs : spent r q = spent t q := by
    unfold spent
    rw [h.awaited?,h.policy,Probe.find_agree h.root h.index h.isFile]
  rw [Run.plainReason,Run.plainReason,hc,hs]

include hn in
theorem Rules.Agree.ownReason : ownReason r q = ownReason t q := by
  have hi : isNoise r q = isNoise t q := by
    unfold isNoise
    rw [hn]
  cases hb : isNoise r q with
  | true => rw [ownReason_of_noise r q hb,ownReason_of_noise t q (hi ▸ hb)]
  | false =>
    rw [ownReason_of_not_noise r q hb,ownReason_of_not_noise t q (hi ▸ hb),h.plainReason q]

end Agreement

/-- The specifier is also asked for in a way that is noise. -/
def IsAlsoNoise (r : Rules) (Q : Query → Prop) (q : Query) : Prop :=
  ∃ u, Q u ∧ u.importer.rel = q.importer.rel ∧ u.spec = q.spec ∧ isNoise r u = true

/-- An outcome as the specifier means it; if it is unresolved, for its own reason or as noise. -/
structure Explains (r : Rules) (Q : Query → Prop) (q : Query) (e : Cache.Entry) : Prop where
  bare : e.bare = answer r q
  reason : e.resolvedType = .unresolved → ∃ code, e.reason = some code ∧
    (code = plainReason r q ∨ code = .parserNoiseSuppressed ∧ IsAlsoNoise r Q q)

section Explaining
variable {r : Rules} {Q : Query → Prop} {q : Query}

theorem reasonOf_some (code : ReasonCode) (e : Effort) (s : State) :
    (reasonOf r q (isNoise r q) (some code) e s).1 =
      if isNoise r q then .parserNoiseSuppressed else code := by
  unfold reasonOf
  cases isNoise r q <;> simp [Diagnosis.reason]

theorem reasonOf_none {e : Effort} (hv : e.verdict = some (classified? r q))
    (hx : e.purse.isExhausted = spent r q) (s : State) :
    (reasonOf r q (isNoise r q) none e s).1 = ownReason r q := by
  unfold reasonOf
  cases hn : isNoise r q with
  | true => simp [Diagnosis.reason,ownReason_of_noise r q hn]
  | false =>
    cases hc : Diagnosis.escapes q.spec q.importer with
    | true => simp [Diagnosis.reason,ownReason_of_not_noise r q hn,plainReason,hc]
    | false =>
      simp [Diagnosis.reason,ownReason_of_not_noise r q hn,plainReason,hc,askBuild,hv,hx]

/-- Noise is filed as noise, whatever was remembered. -/
theorem Filed.reason_of_noise {e : Effort} {entry last : Cache.Entry} (h : Filed r q e entry last)
    (hn : isNoise r q = true) (ht : last.resolvedType = .unresolved) :
    last.reason = some .parserNoiseSuppressed := by
  cases h with
  | target hu => exact absurd ht hu
  | missing _ s kinds =>
    have hn : r.noise.isNoise q.spec q.raw q.importer = true := hn
    simp [reasonOf,Diagnosis.reason,hn]

/-- Each way to come to an outcome, and its filing, explains it. -/
theorem upkeep_explains {pairs : List (String × String)} (hr : r.IsOrdered)
    (ha : Cache.Apart pairs)
    (hQ : ∀ q, Q q → Asks r pairs q ∧ q.spec = Specifier.normalize q.raw) :
    Upkeep r Q (Explains r Q) where
  whole _ _ _ h := isWhole_of_bare h.bare
  shared q u entry hq hu hslot h := by
    obtain ⟨haq,hnq⟩ := hQ q hq
    obtain ⟨hau,hnu⟩ := hQ u hu
    have he := Asks.eq_of_slot ha haq hau hslot
    have hrel : u.importer = q.importer := by rw [he]
    have hspec : u.spec = q.spec := by rw [he]
    have hanswer : answer r u = answer r q := by rw [he]; exact answer_raw hr haq.spec u.raw
    refine ⟨h.bare.trans hanswer.symm,?_⟩
    intro ht
    have hp := isPathBased_of_unresolved r q ((resolvedType_answer h.bare).symm.trans ht)
    obtain ⟨code,hc,hk⟩ := h.reason ht
    refine ⟨code,hc,?_⟩
    rcases hk with rfl | ⟨rfl,v,hv,hvr,hvs,hvn⟩
    · refine .inl ?_
      rw [he]
      exact (plainReason_raw hp hnq (hspec ▸ hnu)).symm
    · exact .inr ⟨rfl,v,hv,by rw [hvr,hrel],by rw [hvs,hspec],hvn⟩
  refiled q entry last hq h hf := by
    refine ⟨hf.bare_eq.trans h.bare,?_⟩
    cases hf with
    | target ht => exact fun hu => absurd hu ht
    | missing ht s kinds =>
      intro _
      obtain ⟨code,hc,hk⟩ := h.reason ht
      refine ⟨_,rfl,?_⟩
      rw [hc,show r.noise.isNoise q.spec q.raw q.importer = isNoise r q from rfl,reasonOf_some]
      split
      · next hn => exact .inr ⟨rfl,q,hq,rfl,rfl,hn⟩
      · exact hk
  computed q t last hq ht hf := by
    refine ⟨hf.bare_eq.trans (freshEntry_bare r q),?_⟩
    cases hf with
    | target ht => exact fun hu => absurd hu ht
    | missing hu s kinds =>
      intro _
      obtain ⟨hv,hx⟩ := compute_effort ht (q := q) hu
      have hreason : (freshEntry r q).reason = none :=
        (congrArg Cache.Entry.reason (answer_bare r q)).symm
      refine ⟨_,rfl,?_⟩
      rw [hreason,show r.noise.isNoise q.spec q.raw q.importer = isNoise r q from rfl,
        reasonOf_none hv hx]
      cases hn : isNoise r q with
      | true => exact .inr ⟨ownReason_of_noise r q hn,q,hq,rfl,rfl,hn⟩
      | false => exact .inl (ownReason_of_not_noise r q hn)

end Explaining

section Graph
variable {noise : NoiseFilter} {g : GraphBuilder} {x : Settled}

theorem Settled.heard_of_mem_edges {e : Edge} (h : e ∈ (x.place noise g).edges) :
    (e = x.edge ∧ ∀ code, x.fate = .missing code → x.isNoise noise = false) ∨ e ∈ g.edges := by
  unfold place at h
  split at h
  · next hf => simpa [hf] using GraphBuilder.mem_addEdge _ h
  · next hf => simpa [hf] using GraphBuilder.mem_addEdge _ h
  · next hf =>
    cases hn : x.isNoise noise with
    | true =>
      simp only [hn,if_true] at h
      exact .inr h
    | false =>
      simp only [hn,Bool.false_eq_true,if_false] at h
      split at h
      · simpa using GraphBuilder.mem_addEdge _ h
      · exact .inr (by simpa using h)

theorem Settled.heard_of_mem_warnings {w : Warning} (h : w ∈ (x.place noise g).warnings) :
    (∃ code, x.fate = .missing code ∧ x.isNoise noise = false ∧ w = x.warning code) ∨
      w ∈ g.warnings := by
  unfold place at h
  split at h
  · exact .inr (by simpa using h)
  · exact .inr (by simpa using h)
  · next code hf =>
    cases hn : x.isNoise noise with
    | true =>
      simp only [hn,if_true] at h
      exact .inr h
    | false =>
      simp only [hn,Bool.false_eq_true,if_false] at h
      have hw : w ∈ (g.addWarning x.query.spec (x.warning code)).2.warnings := by
        split at h
        · simpa using h
        · exact h
      rcases GraphBuilder.mem_addWarning _ hw with hw | hw
      · exact .inl ⟨code,hf,rfl,hw⟩
      · exact .inr hw

/-- What the graph says of unresolved specifiers it says of none that is noise. -/
structure Silences (noise : NoiseFilter) (xs : List Settled) (g : GraphBuilder) : Prop where
  edges : ∀ e ∈ g.edges, ∃ x ∈ xs, e = x.edge ∧
    ∀ code, x.fate = .missing code → x.isNoise noise = false
  warnings : ∀ w ∈ g.warnings, ∃ x ∈ xs, ∃ code, x.fate = .missing code ∧
    x.isNoise noise = false ∧ w = x.warning code

theorem Silences.place {xs : List Settled} (h : Silences noise xs g) (x : Settled) :
    Silences noise (xs ++ [x]) (x.place noise g) where
  edges := by
    intro e he
    rcases Settled.heard_of_mem_edges he with he | he
    · exact ⟨x,by simp,he⟩
    · obtain ⟨y,hy,hk⟩ := h.edges e he
      exact ⟨y,by simp [hy],hk⟩
  warnings := by
    intro w hw
    rcases Settled.heard_of_mem_warnings hw with hw | hw
    · exact ⟨x,by simp,hw⟩
    · obtain ⟨y,hy,hk⟩ := h.warnings w hw
      exact ⟨y,by simp [hy],hk⟩

theorem silences_closed (q : Request) : Silences q.ruled.noise q.settled q.closed.state.graph := by
  apply Request.graph_induction
  · exact ⟨by simp [GraphBuilder.of],by simp [GraphBuilder.of]⟩
  · intro xs g rel h
    exact ⟨by simpa using h.edges,by simpa using h.warnings⟩
  · exact fun xs g y _ h => h.place y

end Graph

/-- The same request at another moment. -/
def Request.timed (q : Request) (now : Int) : Request := { q with now }

namespace Request
variable (q : Request)

theorem ruled_timed {ts : List Request} {now : Int} {d : Option Cache.Persisted}
    (h : IsListed ts d) (hf : ∀ t ∈ ts, t.fileSet = q.fileSet) :
    ((q.timed now).seeded d).ruled =
      (q.timed now).rules q.fileSet (Manifest.facts q.view q.root) :=
  ((q.timed now).seeded d).ruled_of_isListed h fun t ht _ => hf t ht

theorem agree_timed (now : Int) {ts : List Request} {d : Option Cache.Persisted}
    (h : IsListed ts d) (hf : ∀ t ∈ ts, t.fileSet = q.fileSet) :
    ((q.timed now).seeded d).ruled.Agree q.anew.ruled ∧
      ((q.timed now).seeded d).ruled.noise = q.anew.ruled.noise ∧
      ((q.timed now).seeded d).queries = q.anew.queries := by
  unfold queries
  rw [q.ruled_timed h hf,q.anew.ruled_of_new rfl]
  exact ⟨⟨rfl,rfl,rfl,rfl,fun _ => rfl,fun _ => rfl,rfl,rfl,rfl,rfl⟩,rfl,rfl⟩

/-- What is left by runs over one request explains what it holds. -/
structure Explained (ts : List Request) (d : Option Cache.Persisted) : Prop where
  fileSet : ∀ t ∈ ts, t.fileSet = q.fileSet
  isListed : IsListed ts d
  keeps : ∀ c, d = some c → ∀ rel f, c.files.find? rel = some f →
    Keeps (· ∈ q.anew.queries) (Explains q.anew.ruled (· ∈ q.anew.queries)) rel f

end Request

theorem Rules.Agree.symm {r t : Rules} (h : r.Agree t) : t.Agree r where
  resolver := h.resolver.symm
  files := h.files.symm
  root := h.root.symm
  index := h.index.symm
  isFile := fun place => (h.isFile place).symm
  package := fun dir => (h.package dir).symm
  aliases := h.aliases.symm
  build := h.build.symm
  policy := h.policy.symm
  names := h.names.symm

theorem Explains.congr {r t : Rules} (h : r.Agree t) (hn : r.noise = t.noise) {Q : Query → Prop}
    {q : Query} {e : Cache.Entry} (hx : Explains r Q q e) : Explains t Q q e where
  bare := hx.bare.trans (h.answer q)
  reason := by
    intro hu
    obtain ⟨code,hc,hk⟩ := hx.reason hu
    refine ⟨code,hc,?_⟩
    unfold IsAlsoNoise isNoise at hk ⊢
    rwa [← h.plainReason,← hn]

namespace Request
variable {q : Request}

theorem Explained.step (ha : Cache.Apart q.normalized) {ts : List Request}
    {d : Option Cache.Persisted} (h : q.Explained ts d) (now : Int) :
    let t := (q.timed now).seeded d
    (∀ x ∈ t.settled, Explains q.anew.ruled (· ∈ q.anew.queries) x.query x.entry) ∧
      q.Explained (ts ++ [t]) (execute t).cache := by
  obtain ⟨hagree,hnoise,hqueries⟩ := q.agree_timed now h.isListed h.fileSet
  have hkeep := upkeep_explains (Q := (· ∈ ((q.timed now).seeded d).queries))
    ((q.timed now).seeded d).ruled_isOrdered ha
    fun u hu => ((q.timed now).seeded d).asks_of_mem_queries hu
  have hold : ∀ c, d = some c → ∀ rel f, c.files.find? rel = some f →
      Keeps (· ∈ ((q.timed now).seeded d).queries)
        (Explains ((q.timed now).seeded d).ruled (· ∈ ((q.timed now).seeded d).queries)) rel f := by
    intro c hc rel f hf
    rw [hqueries]
    exact (h.keeps c hc rel f hf).imp fun u e _ hx => hx.congr hagree.symm hnoise.symm
  obtain ⟨hsettled,hleft⟩ := ((q.timed now).seeded d).keeps_execute hkeep hold
  rw [hqueries] at hsettled hleft
  refine ⟨fun x hx => (hsettled x hx).congr hagree hnoise,?_,
    ((q.timed now).seeded d).isListed_execute h.isListed,?_⟩
  · intro t ht
    rcases List.mem_append.mp ht with ht | ht
    · exact h.fileSet t ht
    · rw [List.mem_singleton.mp ht]
      rfl
  · intro c hc rel f hf
    exact (hleft c hc rel f hf).imp fun u e _ hx => hx.congr hagree hnoise

theorem explained_cacheAfter (ha : Cache.Apart q.normalized) {c : Option Cache.Persisted}
    (hc : c = none ∨ c = some .new) (moments : List Int) :
    q.Explained (runs c (moments.map q.timed)) (cacheAfter c (moments.map q.timed)) := by
  apply runs_induction (I := q.Explained)
  · refine ⟨by simp,isListed_of_new hc,?_⟩
    intro d hd rel f hf
    rw [find?_of_new hc hd] at hf
    cases hf
  · intro done d t ht h
    obtain ⟨now,-,rfl⟩ := List.mem_map.mp ht
    exact (h.step ha now).2

end Request

/-- The specifier was taken for noise, which it is only as it is written elsewhere. -/
def IsMistaken (q : Request) (u : Query) : Prop :=
  isNoise q.anew.ruled u = false ∧ IsAlsoNoise q.anew.ruled (· ∈ q.anew.queries) u

theorem Settled.edge_decision {x : Settled} {d : Decision} (h : x.edge.decision = some d) :
    ∃ code, x.fate = .missing code ∧ d = code.decision := by
  cases hf : x.fate with
  | inside path =>
    simp only [edge,hf] at h
    cases h
  | outside =>
    simp only [edge,hf] at h
    cases h
  | missing code =>
    simp only [edge,hf] at h
    exact ⟨code,rfl,(Option.some.inj h).symm⟩

theorem decision_inj {a b : ReasonCode} (h : a.decision = b.decision) : a = b := by
  have hr := congrArg Decision.reason h
  simpa using hr

/-- Unresolved specifiers have the reason that they have on their own, and neither edge nor warning
speaks of noise, mistakes apart. -/
structure TellsReasons (q t : Request) : Prop where
  settled : ∀ x ∈ t.settled, ∀ code, x.fate = .missing code →
    code = ownReason q.anew.ruled x.query ∨ code = .parserNoiseSuppressed ∧ IsMistaken q x.query
  edges : ∀ e ∈ (execute t).parts.edges,
    e.decision = some ReasonCode.parserNoiseSuppressed.decision →
      ∃ x ∈ t.settled, e = x.edge ∧ IsMistaken q x.query
  warnings : ∀ w ∈ (execute t).parts.warnings,
    w.decision = ReasonCode.parserNoiseSuppressed.decision →
      ∃ x ∈ t.settled, w = x.warning .parserNoiseSuppressed ∧ IsMistaken q x.query

/-- What is filed for a reason of its own or mistaken for noise is told as such. -/
theorem TellsReasons.of_settled {q t : Request} (hn : t.ruled.noise = q.anew.ruled.noise)
    (h : ∀ x ∈ t.settled, ∀ code, x.fate = .missing code →
      code = ownReason q.anew.ruled x.query ∨
        code = .parserNoiseSuppressed ∧ IsMistaken q x.query) : TellsReasons q t := by
  have hs := silences_closed t
  have hheard : ∀ x ∈ t.settled, x.fate = .missing .parserNoiseSuppressed →
      x.isNoise t.ruled.noise = false → IsMistaken q x.query := by
    intro x hx hf hnoise
    have hnoise : isNoise q.anew.ruled x.query = false := by
      unfold isNoise
      rw [← hn]
      exact hnoise
    rcases h x hx _ hf with ho | ⟨-,hm⟩
    · rw [ownReason_of_not_noise _ _ hnoise] at ho
      exact absurd ho.symm (plainReason_ne _ _)
    · exact hm
  refine ⟨h,?_,?_⟩
  · intro e he hd
    obtain ⟨x,hx,rfl,hnoise⟩ := hs.edges e (Request.mem_edges.mp he)
    obtain ⟨code,hf,hcode⟩ := x.edge_decision hd
    obtain rfl := decision_inj hcode
    exact ⟨x,hx,rfl,hheard x hx hf (hnoise _ hf)⟩
  · intro w hw hd
    obtain ⟨x,hx,code,hf,hnoise,rfl⟩ := hs.warnings w (Request.mem_warnings.mp hw)
    obtain rfl := decision_inj hd
    exact ⟨x,hx,rfl,hheard x hx hf hnoise⟩

/-- Whatever was left by runs of the same request, and whenever they were made, every unresolved
specifier has the reason that it has on its own, except where a specifier of its importer is noise in
one spelling and not in another one. -/
theorem tellsReasons_timed {q : Request} (ha : Cache.Apart q.normalized)
    {c : Option Cache.Persisted} (hc : c = none ∨ c = some .new) (moments : List Int) (now : Int) :
    TellsReasons q ((q.timed now).seeded (cacheAfter c (moments.map q.timed))) := by
  have hchain := Request.explained_cacheAfter ha hc moments
  obtain ⟨-,hnoise,-⟩ := q.agree_timed now hchain.isListed hchain.fileSet
  obtain ⟨hsettled,-⟩ := hchain.step ha now
  apply TellsReasons.of_settled hnoise
  intro x hx code hf
  obtain ⟨ht,hr⟩ :=
    ((q.timed now).seeded (cacheAfter c (moments.map q.timed))).closed_run.2.2.isFiled x hx code hf
  cases hn : isNoise q.anew.ruled x.query with
  | true =>
    obtain ⟨-,entry,e,hfiled⟩ := Request.settled_filed _ hx
    have hown := hfiled.reason_of_noise (by unfold isNoise at hn ⊢; rwa [hnoise]) ht
    rw [ownReason_of_noise _ _ hn]
    exact .inl (Option.some.inj (hr.symm.trans hown))
  | false =>
    obtain ⟨other,ho,hk⟩ := (hsettled x hx).reason ht
    obtain rfl := Option.some.inj (hr.symm.trans ho)
    rcases hk with rfl | ⟨rfl,hu⟩
    · exact .inl (ownReason_of_not_noise _ _ hn).symm
    · exact .inr ⟨rfl,hn,hu⟩

/-- A page that names a missing file, once in quotes that the settings take for noise. -/
def quotedPage : Request :=
  { page (Table.ofList [("page",["'./gone.txt'","./gone.txt"])]) with
    settings := { fixedBudgets with resolver := { noiseIgnore := ["'./gone.txt'"] } } }

theorem tellsReasons_quotedPage :
    Cache.Apart quotedPage.normalized ∧
      TellsReasons quotedPage ((quotedPage.timed 9).seeded
        (cacheAfter (some .new) ([0,5].map quotedPage.timed))) := by
  have ha : Cache.Apart quotedPage.normalized := quotedPage.apart_normalized (by decide +kernel)
  exact ⟨ha,tellsReasons_timed ha (.inr rfl) [0,5] 9⟩

theorem importersOf_quotedPage : importersOf quotedPage.imports =
    [("page",["'./gone.txt'","./gone.txt"])] :=
  importersOf_of_sorted (by decide +kernel) (by decide +kernel)

/-- The missing file is taken for noise in one run from nothing: the entry in memory bears the reason
of the other spelling. -/
theorem not_own_quotedPage :
    (∃ x ∈ quotedPage.anew.settled, x.query.raw = "./gone.txt" ∧
      x.fate = .missing .parserNoiseSuppressed ∧
      ownReason quotedPage.anew.ruled x.query = .missingFileRelative) ∧
    ∃ e ∈ (execute quotedPage.anew).parts.edges,
      e.decision = some ReasonCode.parserNoiseSuppressed.decision := by
  simp only [Request.mem_edges]
  rw [Request.settled,Request.trace,Request.closed,Request.anew_listed rfl,
    Request.opened_of_new _ rfl,Request.anew_imports,importersOf_quotedPage]
  decide +kernel

end Run
end ImportResolution

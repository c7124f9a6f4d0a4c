import ImportResolution.Proofs.Reuse
import ImportResolution.Proofs.Sequence

/-! How long outcomes live. In memory none outlives its moment. What is kept of an importer is served
for as long as the importer has the same content: an outcome without a target keeps the moment of the
run that found nothing, and that moment may have passed. -/
namespace ImportResolution.Run

-- No text is computed here, and no unifier should try to.
attribute [local irreducible] String.toList

/-- The outcome of a query by the rules, with the moment that these give it. -/
structure IsDated (r : Rules) (q : Query) (e : Cache.Entry) : Prop where
  bare : e.bare = answer r q
  expiresAt : e.expiresAt = expiresAt r (answer r q)

theorem isDated_freshEntry (r : Rules) (q : Query) : IsDated r q (freshEntry r q) where
  bare := freshEntry_bare r q
  expiresAt := rfl

namespace IsDated
variable {r : Rules} {q : Query} {entry last : Cache.Entry} (h : IsDated r q entry)
include h

theorem filed {p : Query} {t : Rules} {e : Effort} (hf : Filed t p e entry last) :
    IsDated r q last where
  bare := hf.bare_eq.trans h.bare
  expiresAt := hf.expiresAt_eq.trans h.expiresAt

theorem expiresAt_of_unresolved (hu : entry.resolvedType = .unresolved) :
    entry.expiresAt = some (expiry r.now r.settings.limits.negativeTtl) := by
  rw [h.expiresAt,Run.expiresAt,if_pos ((resolvedType_answer h.bare).symm.trans hu)]

end IsDated

/-- The importer has a digest of its content in both runs, and it is the same. -/
def SameContent (t u : Request) (rel : String) : Prop :=
  ∃ hash, t.hashes.find? rel = some hash ∧ u.hashes.find? rel = some hash

/-- A run came to the outcome for a specifier of the importer under the configuration. -/
def CameTo (t : Request) (rel spec : String) (config : Option String) (e : Cache.Entry) : Prop :=
  ∃ u ∈ t.queries, u.importer.rel = rel ∧ u.spec = spec ∧ stamp u.profile = config ∧
    IsDated t.ruled u e

/-- An outcome of this run, or of an earlier one over the same content. -/
def IsInherited (ts : List Request) (t : Request) (u : Query) (e : Cache.Entry) : Prop :=
  CameTo t u.importer.rel u.spec (stamp u.profile) e ∨
    ∃ s ∈ ts, SameContent s t u.importer.rel ∧ CameTo s u.importer.rel u.spec (stamp u.profile) e

/-- Whatever a cache holds, a run came to it over the content that the cache tells. -/
def IsMade (ts : List Request) (cache : Option Cache.Persisted) : Prop :=
  ∀ c, cache = some c → ∀ rel f, c.files.find? rel = some f → ∀ spec e,
    f.specs.find? spec = some e →
      ∃ t ∈ ts, t.hashes.find? rel = some f.hash ∧ CameTo t rel spec f.configFingerprint e

theorem isMade_of_new {cache : Option Cache.Persisted} (h : cache = none ∨ cache = some .new) :
    IsMade [] cache := by
  intro c hc rel f hf
  rw [find?_of_new h hc] at hf
  cases hf

section Steps
variable {ts : List Request} {q : Request}

theorem CameTo.filed {rel spec : String} {config : Option String} {entry last : Cache.Entry}
    (h : CameTo q rel spec config entry) {r : Rules} {p : Query} {e : Effort}
    (hf : Filed r p e entry last) : CameTo q rel spec config last := by
  obtain ⟨u,hu,hr,hs,hc,hd⟩ := h
  exact ⟨u,hu,hr,hs,hc,hd.filed hf⟩

theorem IsInherited.filed {u : Query} {entry last : Cache.Entry} (h : IsInherited ts q u entry)
    {r : Rules} {p : Query} {e : Effort} (hf : Filed r p e entry last) : IsInherited ts q u last := by
  rcases h with h | ⟨s,hs,hc,h⟩
  · exact .inl (h.filed hf)
  · exact .inr ⟨s,hs,hc,h.filed hf⟩

theorem upkeep_isInherited (ha : Cache.Apart q.normalized) :
    Upkeep q.ruled (· ∈ q.queries) (IsInherited ts q) where
  whole u entry _ h := by
    rcases h with ⟨v,-,-,-,-,hd⟩ | ⟨s,-,-,v,-,-,-,-,hd⟩
    · exact isWhole_of_bare hd.bare
    · exact isWhole_of_bare hd.bare
  shared u v entry hu hv hslot h := by
    -- Of a query, only its spelling is not part of the statement.
    obtain ⟨ku,-⟩ := q.asks_of_mem_queries hu
    obtain ⟨kv,-⟩ := q.asks_of_mem_queries hv
    rw [ku.eq_of_slot ha kv hslot]
    exact h
  refiled _ _ _ _ h hf := h.filed hf
  computed u _ _ hu _ hf := .inl ⟨u,hu,rfl,rfl,rfl,(isDated_freshEntry q.ruled u).filed hf⟩

/-- A run settles specifiers as it comes to them or as an earlier run did, and so it leaves them. -/
theorem IsMade.step (ha : Cache.Apart q.normalized) (h : IsMade ts q.cache) :
    (∀ x ∈ q.settled, IsInherited ts q x.query x.entry) ∧ IsMade (ts ++ [q]) (execute q).cache := by
  have hx : ∀ x ∈ q.settled, IsInherited ts q x.query x.entry := by
    apply q.upheld (upkeep_isInherited ha)
    intro d hd rel f hf u entry _ hrel hhash hstamp hfind _
    obtain ⟨c,hc,hk⟩ := (q.exists_of_opened hd).2 rel f hf
    obtain ⟨t,ht,hold,hcame⟩ := h c hc rel f hk u.spec entry hfind
    subst hrel
    exact .inr ⟨t,ht,⟨f.hash,hold,hhash⟩,hstamp ▸ hcame⟩
  refine ⟨hx,?_⟩
  intro d hd rel f hf spec e hfind
  rcases (q.exists_of_cache hd).2 rel f hf with ⟨c,hc,hk⟩ | ⟨hhash,hkeeps⟩
  · obtain ⟨t,ht,hcame⟩ := h c hc rel f hk spec e hfind
    exact ⟨t,List.mem_append_left _ ht,hcame⟩
  · obtain ⟨u,-,rfl,rfl,hstamp,hm⟩ := hkeeps spec e hfind
    rcases hx _ hm with hcame | ⟨t,ht,⟨hash,hold,hnew⟩,hcame⟩
    · exact ⟨q,by simp,hhash,hstamp ▸ hcame⟩
    · obtain rfl := Option.some.inj (hhash.symm.trans hnew)
      exact ⟨t,List.mem_append_left _ ht,hold,hstamp ▸ hcame⟩

theorem isMade_cacheAfter {c : Option Cache.Persisted} (hc : c = none ∨ c = some .new)
    {qs : List Request} (ha : ∀ q ∈ qs, Cache.Apart q.normalized) :
    IsMade (runs c qs) (cacheAfter c qs) :=
  runs_induction (I := IsMade) (isMade_of_new hc) fun _ d q hq h =>
    (h.step (q := q.seeded d) (ha q hq)).2

/-- Where keys are told apart, what a run came to itself is the outcome of the very query. -/
theorem CameTo.isDated (ha : Cache.Apart q.normalized) {u : Query} (hu : u ∈ q.queries)
    {e : Cache.Entry} (h : CameTo q u.importer.rel u.spec (stamp u.profile) e) :
    IsDated q.ruled u e := by
  obtain ⟨v,hv,hr,hs,hc,hd⟩ := h
  obtain ⟨ku,-⟩ := q.asks_of_mem_queries hu
  obtain ⟨kv,-⟩ := q.asks_of_mem_queries hv
  have hslot : u.slot = v.slot := by rw [Query.slot,Query.slot,hr,hs,hc]
  have he : answer q.ruled v = answer q.ruled u := by
    rw [ku.eq_of_slot ha kv hslot]
    exact answer_raw q.ruled_isOrdered ku.spec v.raw
  exact ⟨hd.bare.trans he,hd.expiresAt.trans (congrArg _ he)⟩

end Steps

/-- After any runs, memory serves nothing beyond its moment. What has no target has none now and lives
from now on, or had none when an earlier run came to it over the same content of the importer; over
another content, every specifier has the outcome of now. -/
theorem outcomes_dated {c : Option Cache.Persisted} (hc : c = none ∨ c = some .new)
    (earlier : List Request) (q : Request) (ha : ∀ t ∈ q :: earlier, Cache.Apart t.normalized) :
    let t := q.seeded (cacheAfter c earlier)
    (∀ key m e, (remembered t.ruled key m).1 = some e → e.isExpired t.now = false) ∧
      (∀ x ∈ t.settled, x.entry.resolvedType = .unresolved →
        (answer t.ruled x.query).resolvedType = .unresolved ∧
            x.entry.expiresAt = some (expiry t.now t.settings.limits.negativeTtl) ∨
          ∃ s ∈ runs c earlier, SameContent s t x.query.importer.rel ∧
            ∃ u ∈ s.queries, u.importer.rel = x.query.importer.rel ∧ u.spec = x.query.spec ∧
              stamp u.profile = stamp x.query.profile ∧
              (answer s.ruled u).resolvedType = .unresolved ∧
              x.entry.expiresAt = some (expiry s.now s.settings.limits.negativeTtl)) ∧
      ∀ x ∈ t.settled, (∀ s ∈ runs c earlier, ¬SameContent s t x.query.importer.rel) →
        x.entry.bare = answer t.ruled x.query := by
  intro t
  have hmade : IsMade (runs c earlier) t.cache :=
    isMade_cacheAfter hc fun s hs => ha s (.tail _ hs)
  have hapart : Cache.Apart t.normalized := ha q (.head _)
  obtain ⟨hx,-⟩ := hmade.step hapart
  refine ⟨fun key m e he => (((remembered_cases key m).1 e he).2).2,?_,?_⟩
  · intro x hm hu
    rcases hx x hm with hcame | ⟨s,hs,hcontent,u,hq,hr,hspec,hstamp,hd⟩
    · have hd := hcame.isDated hapart (t.mem_queries_of_mem_settled hm)
      exact .inl ⟨(resolvedType_answer hd.bare).symm.trans hu,hd.expiresAt_of_unresolved hu⟩
    · exact .inr ⟨s,hs,hcontent,u,hq,hr,hspec,hstamp,(resolvedType_answer hd.bare).symm.trans hu,
        hd.expiresAt_of_unresolved hu⟩
  · intro x hm hn
    rcases hx x hm with hcame | ⟨s,hs,hcontent,-⟩
    · exact (hcame.isDated hapart (t.mem_queries_of_mem_settled hm)).bare
    · exact absurd hcontent (hn s hs)

/-- The page a minute later, with another content. -/
def rewrittenPage : Request :=
  { plainPage with view := lateDisk, hashes := Table.ofList [("page","other")], now := 60001 }

theorem outcomes_dated_rewrittenPage :
    (∀ t ∈ [rewrittenPage,plainPage], Cache.Apart t.normalized) ∧
      ∀ x ∈ (rewrittenPage.seeded (cacheAfter (some .new) [plainPage])).settled,
        x.entry.bare =
          answer (rewrittenPage.seeded (cacheAfter (some .new) [plainPage])).ruled x.query := by
  have ha : ∀ t ∈ [rewrittenPage,plainPage], Cache.Apart t.normalized := by
    intro t ht
    have hi : t.imports = plainPage.imports := by
      rcases List.mem_cons.mp ht with rfl | ht
      · rfl
      · rw [List.mem_singleton.mp ht]
    exact t.apart_normalized (hi ▸ by decide +kernel)
  refine ⟨ha,fun x hx => ?_⟩
  refine (outcomes_dated (.inr rfl) [plainPage] rewrittenPage ha).2.2 x hx ?_
  rintro s hs ⟨hash,hold,hnew⟩
  obtain rfl : s = plainPage.seeded (some .new) := List.mem_singleton.mp hs
  have hold : (Table.empty.insert "page" "digest").find? x.query.importer.rel = some hash := hold
  have hnew : (Table.empty.insert "page" "other").find? x.query.importer.rel = some hash := hnew
  simp only [Table.find?_insert,Table.find?_empty] at hold hnew
  split at hold
  · next hp =>
    rw [if_pos hp] at hnew
    exact absurd (hold.trans hnew.symm) (by decide)
  · cases hold

/-- The page a minute later, with the cache of the first run. -/
def latePage : Request :=
  plainPage.anew.later plainPage.entries lateDisk plainPage.hashes 60001
    plainPage.settings.limits.maxCacheEntries

/-- The file is there and the moment of the outcome has passed, and it is served. -/
theorem not_expiring_latePage :
    ∃ x ∈ latePage.settled, x.query.raw = "./gone.txt" ∧ x.entry.resolvedType = .unresolved ∧
      x.entry.isExpired latePage.now = true ∧
      (answer latePage.ruled x.query).fallbackPath = some "gone.txt" := by
  have hr : latePage.ruled = latePage.listed := Request.later_listed rfl _ _ _ _ rfl
  have ho := Request.later_opened (q := plainPage) rfl lateDisk plainPage.hashes 60001
    plainPage.settings.limits.maxCacheEntries (by decide +kernel) files_plainPage
  have hi : importersOf latePage.imports = [("page",["./part.txt","library","./gone.txt"])] :=
    importersOf_plainPage
  rw [Request.settled,Request.trace,hr,show latePage.opened = _ from ho,hi]
  decide +kernel

end ImportResolution.Run

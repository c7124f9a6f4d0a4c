import ImportResolution.Proofs.Edits
import ImportResolution.Proofs.Reuse

/-! Seeded runs against fresh ones. A run that is seeded by an earlier one settles every specifier as
a run from nothing would, as long as what an edit moves shows in the package, in the key or in the
fingerprint of a configuration. -/
namespace ImportResolution.Run

/-- What a specifier comes to: its importer and its text, then its type, its target and its path. -/
def Settled.verdict (x : Settled) :
    String × String × ResolvedType × Option String × Option String :=
  (x.query.importer.rel,x.query.raw,x.edge.resolvedType,x.edge.target,x.edge.resolvedPath)

theorem Settled.verdict_bare (x : Settled) : x.bare.verdict = x.verdict := by
  have ht := congrArg Edge.resolvedType x.undecided_edge
  have hg := congrArg Edge.target x.undecided_edge
  have hp := congrArg Edge.resolvedPath x.undecided_edge
  simp only [Edge.undecided] at ht hg hp
  rw [verdict,verdict,ht,hg,hp]
  rfl

theorem verdicts_of_trace {q t : Request}
    (h : q.trace.map FileRecord.bare = t.trace.map FileRecord.bare) :
    q.settled.map Settled.verdict = t.settled.map Settled.verdict := by
  have hb := congrArg (fun xs => (xs.flatMap (·.settled)).map Settled.verdict) h
  simp only [← settled_bare,List.map_map] at hb
  simpa [Function.comp_def,Settled.verdict_bare] using hb

/-- Over the same files, with texts that may have changed between the runs. -/
theorem verdicts_later (q : Request) (entries : List Entry) (view : DiskView)
    (hashes : Table String) (now : Int) (n : Nat)
    (he : FileSet.ofEntries q.root entries = q.fileSet)
    (hf : ∀ place, q.view.isFile place = view.isFile place) (ha : Cache.Apart q.normalized)
    (h : q.anew.Trusts (q.anew.later entries view hashes now n) →
      Unmoved q.importers q.anew.ruled (q.anew.later entries view hashes now n).ruled) :
    let t := q.anew.later entries view hashes now n
    t.settled.map Settled.verdict = t.anew.settled.map Settled.verdict ∧
      Alike (execute t) (execute t.anew) := by
  have hr : (q.anew.later entries view hashes now n).anew.ruled =
      (q.anew.later entries view hashes now n).ruled := by
    rw [q.later_ruled he]
    exact (Request.ruled_of_new _ rfl).trans (congrArg (fun f => Request.rules _ f _) he)
  have hs := q.later_trace he view hashes now n ha hf h
  have ht := (q.anew.later entries view hashes now n).anew_trace ha
  rw [hr] at ht
  have heq := hs.trans ht.symm
  exact ⟨verdicts_of_trace heq,alike_of_trace heq rfl rfl⟩

def goImports : Table (List String) := Table.ofList [("main.go",["example.com/b/util"])]

theorem importersOf_goImports : importersOf goImports = [("main.go",["example.com/b/util"])] :=
  importersOf_of_sorted (by decide +kernel) (by decide +kernel)

/-- A program that imports a package by the name of a module. -/
def goProgram (module : String) : Request where
  root := "/r"
  entries := [⟨"/r/go.mod",none⟩,⟨"/r/main.go",none⟩,⟨"/r/util/util.go",none⟩]
  imports := goImports
  settings := fixedBudgets
  hashes := Table.ofList
    [("main.go","e3b0c44298fc1c149afbf4c8996fb92427ae41e4649b934ca495991b7852b855")]
  view := ⟨⟨[(["r"],.dir),(["r","go.mod"],.file ("module " ++ module ++ "\n").toUTF8),
    (["r","main.go"],.file .empty),(["r","util"],.dir),
    (["r","util","util.go"],.file .empty)]⟩,{}⟩
  now := 0

/-- The same program, in which directories stand for no file. -/
def plainProgram (module : String) : Request :=
  { goProgram module with
    settings := { fixedBudgets with resolver := { enablePackageEntries := false } } }

/-- The name of the module gets a remark between the runs. -/
def remarked : Request :=
  (plainProgram "example.com/b").anew.later (plainProgram "example.com/b").entries
    (plainProgram "example.com/b // the second").view (plainProgram "example.com/b").hashes 1 1

theorem unmoved_remarked :
    Unmoved (plainProgram "example.com/b").importers (plainProgram "example.com/b").anew.ruled
      remarked.ruled := by
  have hr : remarked.ruled = remarked.listed := Request.later_listed rfl _ _ _ _ rfl
  have hi : (plainProgram "example.com/b").importers = ["main.go"] :=
    congrArg (List.map Prod.fst) importersOf_goImports
  have hp : ∀ (r : Rules) dir, r.settings.resolver.enablePackageEntries = false →
      packaged? r dir = none := fun r dir h => by simp [packaged?,h]
  rw [Request.anew_listed rfl,hr,hi]
  refine ⟨by decide +kernel,fun dir => (hp _ dir rfl).trans (hp _ dir rfl).symm,?_⟩
  intro rel hm p hg
  obtain rfl := List.mem_singleton.mp hm
  have hn : TsConfig.governing (plainProgram "example.com/b").view "/r" "main.go" = none :=
    Option.isNone_iff_eq_none.mp (by decide +kernel)
  cases hn.symm.trans hg

/-- The later run trusts the earlier one over an edit, and may. -/
theorem verdicts_later_remarked :
    (∀ place, (plainProgram "example.com/b").view.isFile place = remarked.view.isFile place) ∧
      Cache.Apart (plainProgram "example.com/b").normalized ∧
      (plainProgram "example.com/b").anew.Trusts remarked ∧
      remarked.settled.map Settled.verdict = remarked.anew.settled.map Settled.verdict ∧
      Alike (execute remarked) (execute remarked.anew) := by
  have hf : ∀ place, (plainProgram "example.com/b").view.isFile place = remarked.view.isFile place :=
    DiskView.isFile_of_hollow rfl
  have ha := (plainProgram "example.com/b").apart_normalized (by decide +kernel)
  have ht : (plainProgram "example.com/b").anew.Trusts remarked :=
    Request.trusts_later _ rfl _ _ _ _ (by decide +kernel)
  exact ⟨hf,ha,ht,verdicts_later (plainProgram "example.com/b") _ _ _ 1 1 rfl hf ha
    fun _ => unmoved_remarked⟩

/-- The module takes the imported name between the runs. -/
def renamed : Request :=
  (goProgram "example.com/a").anew.later (goProgram "example.com/a").entries
    (goProgram "example.com/b").view (goProgram "example.com/a").hashes 1 1

/-- The import leads into the repository now, and a seeded run keeps it outside: no key tells. -/
theorem verdicts_ne_renamed :
    (∀ place, (goProgram "example.com/a").view.isFile place = renamed.view.isFile place) ∧
      renamed.settled.map Settled.verdict ≠ renamed.anew.settled.map Settled.verdict := by
  refine ⟨DiskView.isFile_of_hollow rfl,?_⟩
  have hf : (execute (goProgram "example.com/a").anew).cache.map (·.files) = some (Table.ofList
      [("main.go",⟨"e3b0c44298fc1c149afbf4c8996fb92427ae41e4649b934ca495991b7852b855",none,
        Table.ofList [("example.com/b/util",
          { resolvedType := .external, packageName := some "example.com" })]⟩)]) := by
    rw [Request.execute_eq,Request.closed,Request.anew_listed rfl,Request.opened_of_new _ rfl,
      Request.anew_imports,show (goProgram _).imports = goImports from rfl,importersOf_goImports]
    decide +kernel
  have hr : renamed.ruled = renamed.listed := Request.later_listed rfl _ _ _ _ rfl
  have ho := Request.later_opened (q := goProgram "example.com/a") rfl
    (goProgram "example.com/b").view (goProgram "example.com/a").hashes 1 1 (by decide +kernel) hf
  have hi : importersOf renamed.imports = [("main.go",["example.com/b/util"])] :=
    importersOf_goImports
  rw [Request.settled,Request.settled,Request.trace,Request.trace,hr,
    show renamed.opened = _ from ho,Request.anew_listed rfl,renamed.anew.opened_of_new rfl,
    Request.anew_imports,hi]
  decide +kernel

end ImportResolution.Run

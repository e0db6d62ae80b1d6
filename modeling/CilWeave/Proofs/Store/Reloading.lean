import CilWeave.Proofs.Store.Saving

/-!
When a written module can be loaded again. As long as identities last, its bodies are valid wherever it comes from; so what
decides is whether its image holds all of its numbers and nests no deeper than a reader goes. Writing asks for none of this:
where there is no numeral for a number, nothing is written in its place, and the file is lost.
-/

namespace CilWeave

open Image Stateful

namespace Module

variable {module : Module} {text : String}

/-- Modules that were loaded, and modules that weaves made of such modules. -/
inductive FromDisk : Module → Prop
  | loaded {disk : Disk} {path : List String} {module : Module} (read : disk.loadModule path = .ok module) : FromDisk module
  | woven {weaver after : Weaver} {report : WeaveReport} (target : FromDisk weaver.target) (mixins : FromDisk weaver.mixins)
      (accepted : weaver.apply = (.ok report, after)) : FromDisk after.target

theorem FromDisk.coherent (given : module.FromDisk) :
    module.EachBody fun body => body.Spare → body.Coherent ∧ body.Fresh := by
  induction given with
  | loaded read =>
      obtain ⟨given, valid⟩ := Disk.loadModule_ok read
      intro type listed method member body defined _
      obtain ⟨valid, unused⟩ := bodies_of_isRead given valid type listed method member body defined
      exact ⟨Body.validate_iff.mp valid, .inl unused⟩
  | woven _ _ accepted target mixins =>
      refine Weaver.apply_bodies (fun home body holds spare => ?_) (fun injection holds spare => ?_)
        (fun body depth holds spare => ⟨?_, (holds spare).2⟩) target mixins accepted
      · obtain ⟨coherent, fresh⟩ := holds (spare.congr (home.body_ids body).symm)
        exact ⟨home.body_coherent coherent, home.body_fresh fresh⟩
      · obtain ⟨coherent, fresh⟩ := holds (Injection.body_spare spare)
        have intact := injection.woven_intact coherent fresh spare
        exact ⟨intact.sound.toCoherent, intact.fresh⟩
      · have coherent := (holds spare).1
        exact ⟨coherent.distinct, coherent.operands, coherent.targets⟩

/-- A module that was loaded, one that weaves made of such modules before identities ran out, or any other valid one. -/
inductive Kept (module : Module) : Prop
  | loaded {disk : Disk} {path : List String} (read : disk.loadModule path = .ok module)
  | woven (given : module.FromDisk) (spare : module.Spare)
  | built (valid : module.validate = .ok ())

theorem Kept.valid (kept : module.Kept) : module.validate = .ok () := by
  cases kept with
  | loaded read => exact (Disk.loadModule_ok read).2
  | woven given spare =>
      refine validate_iff.mpr fun type listed method member body defined => ?_
      exact Body.validate_iff.mpr
        (given.coherent type listed method member body defined (spare type listed method member body defined)).1
  | built valid => exact valid

/-- What was written can be loaded exactly if the image holds every number and is not too deep. -/
theorem written_loads_iff (kept : module.Kept) (written : module.IsText text) (readable : module.Readable)
    {disk after : Disk} {path : List String} (saved : disk.replace path text = (true, after)) :
    (∃ loaded, after.loadModule path = .ok loaded) ↔ module.Storable ∧ module.Shallow := by
  have read : after.loadModule path = ofText text := by rw [Disk.loadModule, Disk.file?_of_replace saved]
  rw [read]
  constructor
  · rintro ⟨loaded, read⟩
    obtain ⟨⟨shallow, storable, -⟩, -⟩ := (written.ofText_iff readable loaded).mp read
    exact ⟨storable, shallow⟩
  · rintro ⟨storable, shallow⟩
    exact ⟨module.reread, (written.ofText_iff readable _).mpr ⟨⟨shallow, storable, kept.valid⟩, rfl⟩⟩

end Module

namespace Shelf

/-- What is short enough can be loaded from its compact text. -/
theorem written_loads_compact :
    Disk.empty.replace ["Demo.json"] module.compactText = (true, after module.compactText) ∧
      ∃ loaded, (after module.compactText).loadModule ["Demo.json"] = .ok loaded :=
  ⟨saved _, (Module.written_loads_iff (.built valid) (.inl rfl) faithful.readable (saved _)).mpr ⟨storable, shallow⟩⟩

/-- A valid module whose only constant is infinite. -/
def endless : Module :=
  ⟨"Demo", [], [⟨"Demo", "Sky", ⟨1⟩, none, [], [],
    [⟨"Limit", ⟨0x16⟩, .void, [],
      some ⟨1, false, #[], #[⟨0, .ldcR4, .immediate (.single ⟨0x7F800000⟩)⟩, ⟨1, .pop, .none⟩,
        ⟨2, .ret, .none⟩], 3⟩, []⟩], []⟩]⟩

theorem not_finite : ¬ Single.IsFinite ⟨0x7F800000⟩ := by
  rintro ⟨negative, magnitude, reading⟩
  have infinite : Decimal.Format.single.readBits 0x7F800000 = .infinite false := by decide
  cases infinite.symm.trans reading

/-- The module is written, and what was written cannot be loaded. -/
theorem endless_lost :
    endless.validate = .ok () ∧ Disk.empty.replace ["Demo.json"] endless.compactText = (true, after endless.compactText) ∧
      ∀ loaded, (after endless.compactText).loadModule ["Demo.json"] ≠ .ok loaded := by
  refine ⟨ok_of_isOk () (by decide +kernel), saved _, fun loaded read => ?_⟩
  have held : endless.scalars = [.single ⟨0x7F800000⟩] := rfl
  have readable : endless.Readable := by
    rw [Module.Readable, held]
    simpa [Scalar.Readable] using fun finite => absurd finite not_finite
  rw [Disk.loadModule, Disk.file?_of_replace (saved _)] at read
  obtain ⟨⟨-, storable, -⟩, -⟩ := (Module.IsText.ofText_iff (.inl rfl) readable loaded).mp read
  have finite : (Scalar.single ⟨0x7F800000⟩).Storable := storable _ (held ▸ List.mem_cons_self)
  exact not_finite finite

end Shelf

end CilWeave

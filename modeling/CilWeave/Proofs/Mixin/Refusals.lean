import CilWeave.Proofs.Mixin.References

/-!
The parts of a weave agree on what they hand to each other. A mixin that was read is described by fields and
methods of its type, places that are found are in the body, and the code for them can be written; so a weave
fails for what the modules are like, and never for what one of its parts has left to the next.
-/

namespace CilWeave

open Stateful

namespace WeaveConfig

variable {config : WeaveConfig} {type : TypeDef} {mixin : MixinDescriptor}

theorem overwriteOps_fits {op : MixinOp} (listed : op ∈ config.overwriteOps type) : op.Fits type := by
  obtain ⟨⟨method, index⟩, held, made⟩ := List.mem_filterMap.mp listed
  obtain ⟨given, -, rfl⟩ := Option.map_eq_some_iff.mp made
  exact ⟨method, List.mk_mem_zipIdx_iff_getElem?.mp held, rfl⟩

theorem injectOps_fits {owner : String} {ops : List MixinOp} (read : config.injectOps owner type = .ok ops) {op : MixinOp}
    (listed : op ∈ ops) : op.Fits type := by
  obtain ⟨descriptor, rfl⟩ := injectOps_mem read listed
  obtain ⟨method, held, roles⟩ := injectOps_ok read listed
  exact ⟨method, held, (mapM_ok_iff.mp roles).length_eq⟩

/-- A mixin is described by the fields and methods of the type that it was read from. -/
theorem mixinDescriptor?_describes (read : config.mixinDescriptor? type = .ok (some mixin)) : mixin.Describes type := by
  obtain ⟨interfaces, injections, -, fields, first, last, ops⟩ := mixinDescriptor?_read read
  constructor
  · intro descriptor member
    obtain ⟨field, listed, described⟩ := mapM_mem fields member
    rw [TypeDef.field?_isSome, fieldDescriptor_field described]
    exact List.mem_map_of_mem listed
  · intro op member
    rw [ops, List.mem_append, List.mem_append] at member
    rcases member with (implements | overwrites) | injects
    · obtain ⟨name, rfl⟩ := interfaceOps_ok first implements
      trivial
    · exact overwriteOps_fits overwrites
    · exact injectOps_fits last injects

end WeaveConfig

namespace Weaver

variable {weaver : Weaver} {mixins : List MixinDescriptor}

/-- If a mixin's type is the only one of its name, it is found again under that name. -/
theorem descriptors_known (distinct : (weaver.mixins.types.map TypeDef.fullName).Nodup) (read : weaver.descriptors = .ok mixins)
    {mixin : MixinDescriptor} (member : mixin ∈ mixins) : (weaver.engine mixins).Knows mixin := by
  obtain ⟨_, annotated, sorted⟩ := bind_ok read
  cases sorted
  obtain ⟨type, listed, described⟩ := WeaveConfig.mixinDescriptors_ok annotated (List.mem_mergeSort.mp member)
  have called := (WeaveConfig.mixinDescriptor?_ok described).1
  have there : (weaver.mixins.type? mixin.mixinType).isSome = true :=
    List.find?_isSome.mpr ⟨type, listed, beq_iff_eq.mpr called.symm⟩
  obtain ⟨found, first⟩ := Option.isSome_iff_exists.mp there
  cases described_type distinct listed called first
  exact ⟨_, first, WeaveConfig.mixinDescriptor?_describes described⟩

end Weaver

theorem Verification.run_fails {config : WeaveConfig} {module : Module} {applied : List AppliedMixin} {fault : WeaveFault}
    (failed : run config module applied = .error fault) : ∃ name cause, fault = .invalidStack name cause := by
  obtain ⟨mixin, -, before, -, failed⟩ := foldlM_error (motive := fun _ => True) (fun _ _ _ _ _ _ => trivial) trivial failed
  obtain ⟨name, -, state, -, failed⟩ := foldlM_error (motive := fun _ => True) (fun _ _ _ _ _ _ => trivial) trivial failed
  obtain ⟨type, index, method, cause, same, -⟩ := method_error failed
  exact ⟨name, cause, same⟩

/-- Reports have names for internal faults that others do not have, but for the want of room for locals. -/
theorem WeaveFault.tag_of_external {fault : WeaveFault} (outside : fault.isInternal = false) :
    fault.tag ∉ ["InvalidMnemonic", "InvalidOperand", "InvalidBranch", "DuplicateLabel", "UndefinedLabel"] ∧
      (fault.tag = "Malformed" → fault.message = "Too many locals") := by
  cases fault with
  | descriptor cause | lostBody method | assembler cause => cases outside
  | body cause =>
      cases cause with
      | tooManyLocals => exact ⟨by simp [tag, BodyFault.tag], fun _ => rfl⟩
      | _ => cases outside
  | _ => exact ⟨by simp [tag], fun same => absurd same (by simp [tag])⟩

namespace Weaver

variable {weaver : Weaver}

theorem apply_external (distinct : (weaver.mixins.types.map TypeDef.fullName).Nodup) {fault : WeaveFault}
    (failed : weaver.apply.1 = .error fault) : fault.isInternal = false := by
  rcases apply_failed failed with unread |
    ⟨mixins, read, ⟨known, refused⟩ | ⟨applied, woven, known, ran, unverified⟩⟩
  · exact (weaver.descriptors_clean fault unread).2 trivial
  · have clean := applyAll_clean (weaver.engine mixins) mixins weaver.target weaver.assemblies
    exact (clean fault (congrArg Prod.fst refused)).2 fun mixin member => descriptors_known distinct read member
  · obtain ⟨name, cause, rfl⟩ := Verification.run_fails unverified
    rfl

/-- Whatever the modules hold, a weave never fails because an operand, a branch or a label of the code it writes is wrong, and
calls nothing malformed but a body that has no room for another local: mixins are described by what their types have, places
that are found are in the body, and the code for them can be written. -/
theorem apply_never_internal (distinct : (weaver.mixins.types.map TypeDef.fullName).Nodup) :
    (∀ fault, weaver.apply.1 = .error fault →
      fault.tag ∉ ["InvalidMnemonic", "InvalidOperand", "InvalidBranch", "DuplicateLabel", "UndefinedLabel"] ∧
        (fault.tag = "Malformed" → fault.message = "Too many locals")) ∧
      (∀ mixins, weaver.descriptors = .ok mixins → ∀ mixin ∈ mixins, ∃ type,
        weaver.mixins.type? mixin.mixinType = some type ∧
        mixin.Describes type) ∧
      (∀ (body : Body) (location : Location), body.locate location ⊆ body.ids) ∧
      ∀ (site : CallbackSite) (body : Body) (cancel : CancelAction), (site.build body cancel).isOk = true := by
  refine ⟨fun fault failed => WeaveFault.tag_of_external (apply_external distinct failed), fun mixins read mixin member => ?_,
    fun body location id found => Body.mem_locate found, fun site body cancel => ?_⟩
  · exact descriptors_known distinct read member
  · rw [site.build_ok]
    rfl

end Weaver

namespace Astray

def test : MethodDef := ⟨"Test", ⟨0⟩, .void, [], some ⟨8, true, #[], #[⟨0, .ret, .none⟩], 0⟩, []⟩

/-- A callback for a place that the target's method does not have. -/
def notice : MethodDef :=
  { test with name := "notice", attributes := [Leak.marked .inject [.string "System.Void T::Test()", .string "IL_0001: pop"]] }

def mixinType : TypeDef :=
  { TypeDef.empty "" "M" ⟨0⟩ none with methods := [notice], attributes := [Leak.marked .mixin [.type "T"]] }

def target : Module := ⟨"Game", [], [{ TypeDef.empty "" "T" ⟨0⟩ none with methods := [test] }]⟩

def weaver : Weaver := .new .standard target ⟨"Mods", [], [mixinType]⟩ ⟨[]⟩

def mixin : MixinDescriptor :=
  ⟨"M", .type "T", 0, [],
    [.inject ⟨0, "notice", "System.Void T::Test()", .instruction "IL_0001: pop", false, .return, 1, []⟩]⟩

theorem apply_never_internal_notice :
    (weaver.mixins.types.map TypeDef.fullName).Nodup ∧ weaver.descriptors = .ok [mixin] ∧
      (∃ type, weaver.mixins.type? mixin.mixinType = some type ∧ mixin.Describes type) ∧
      ∃ fault, weaver.apply.1 = .error fault ∧
        fault.message = "Expected an injection count of 1 but got 0 candidates in System.Void T::Test() at notice in M" ∧
        fault.tag ∉ ["InvalidMnemonic", "InvalidOperand", "InvalidBranch", "DuplicateLabel", "UndefinedLabel"] ∧
        (fault.tag = "Malformed" → fault.message = "Too many locals") := by
  have distinct : (weaver.mixins.types.map TypeDef.fullName).Nodup := by decide +kernel
  have read : weaver.descriptors = .ok [mixin] := ok_of_toOption (by decide +kernel)
  have refused : weaver.refusal? =
      some "Expected an injection count of 1 but got 0 candidates in System.Void T::Test() at notice in M" := by decide +kernel
  obtain ⟨fault, failed, message⟩ := Weaver.refusal?_some refused
  obtain ⟨outside, described, -⟩ := Weaver.apply_never_internal distinct
  exact ⟨distinct, read, described [mixin] read mixin List.mem_cons_self, fault, failed, message, outside fault failed⟩

end Astray

end CilWeave

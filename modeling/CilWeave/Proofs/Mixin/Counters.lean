import CilWeave.Proofs.Body.Restarting
import CilWeave.Proofs.Mixin.Reinjection
import CilWeave.Proofs.Mixin.WovenBodies

/-!
Counters of bodies. Images do not hold them, so the counter of a body that is saved and loaded starts over. It
goes on where it was, because bodies only hand out identities for code that is then put in: until the last
identity is handed out, a counter is at zero or one above all identities, and either way the same identities
come next.
-/

namespace CilWeave

open Stateful

namespace Body

/-- The counter hands out what it would hand out if it started over. -/
def Counted (body : Body) : Prop := body.nextFresh = body.freshId

variable {body other : Body}

theorem Counted.congr (counted : body.Counted) (ids : other.ids = body.ids)
    (counter : other.nextId = body.nextId) : other.Counted := by
  rw [Counted, nextFresh_congr ids counter, counted, freshId_eq, freshId_eq, ids]

theorem Counted.fresh (counted : body.Counted) (spare : body.Spare) : body.Fresh := by
  refine fresh_of_above ?_
  rw [counted]
  exact (freshId_le_iff spare).mp (Nat.le_refl _)

/-- Two bodies that differ at most in their counters, which hand out the same next. -/
inductive SameCode (body : Body) : Body → Prop
  | of (next : InstrId) (alike : nextFresh { body with nextId := next } = body.nextFresh) :
      SameCode body { body with nextId := next }

namespace SameCode

theorem refl (body : Body) : body.SameCode body := .of _ rfl

theorem restart (same : body.SameCode other) : other.restart = body.restart := by
  obtain ⟨next, -⟩ := same
  rfl

theorem nextFresh (same : body.SameCode other) : other.nextFresh = body.nextFresh := by
  obtain ⟨next, alike⟩ := same
  exact alike

/-- Bodies that have handed something out are the same. -/
theorem handOut (same : body.SameCode other) {count : Nat} (some : 0 < count) : other.handOut count = body.handOut count := by
  have first : other.handOut 1 = body.handOut 1 := by
    obtain ⟨next, alike⟩ := same
    exact congrArg (fun id => { body with nextId := id + 1 }) alike
  obtain ⟨more, rfl⟩ := Nat.exists_eq_add_of_le some
  rw [← handOut_handOut, first, handOut_handOut]

/-- They hand out the same from then on. -/
theorem upcoming (same : body.SameCode other) : other.upcoming = body.upcoming := by
  funext position
  rcases Nat.eq_zero_or_pos position with rfl | some
  · exact same.nextFresh
  · rw [Body.upcoming, Body.upcoming, same.handOut some]

theorem withMaxStack (same : body.SameCode other) (depth : UInt16) :
    SameCode { body with maxStack := depth } { other with maxStack := depth } := by
  obtain ⟨next, alike⟩ := same
  exact .of next alike

end SameCode

theorem relaxWithin_counter (bound : Nat) (body : Body) (next : InstrId) :
    relaxWithin bound { body with nextId := next } =
      ((relaxWithin bound body).1, { (relaxWithin bound body).2 with nextId := next }) := by
  induction bound generalizing body with
  | zero => rfl
  | succ bound ih =>
      have pass : widenPass { body with nextId := next } = (body.widenPass.1, { body.widenPass.2 with nextId := next }) := rfl
      rw [relaxWithin, relaxWithin, pass]
      dsimp only
      split
      · rfl
      · rw [ih]

theorem nextFresh_relax (body : Body) : body.relax.2.nextFresh = body.nextFresh :=
  nextFresh_congr body.relax_widens.ids (by rw [body.relax_widens.rest])

theorem Counted.relax (counted : body.Counted) : body.relax.2.Counted :=
  counted.congr body.relax_widens.ids (by rw [body.relax_widens.rest])

theorem SameCode.relax (same : body.SameCode other) : body.relax.2.SameCode other.relax.2 := by
  obtain ⟨next, alike⟩ := same
  have moved : (Body.relax { body with nextId := next }).2 = { body.relax.2 with nextId := next } :=
    congrArg Prod.snd (relaxWithin_counter _ body next)
  have relaxed := nextFresh_relax { body with nextId := next }
  rw [moved] at relaxed ⊢
  exact .of next (relaxed.trans (alike.trans (nextFresh_relax body).symm))

theorem spliceId?_counter (body : Body) (next : InstrId) : spliceId? { body with nextId := next } = body.spliceId? := by
  funext position
  exact congrArg body.idAt? (splicePosition_congr (by rfl) position)

theorem locate_counter (body : Body) (next : InstrId) (location : Location) :
    locate { body with nextId := next } location = body.locate location := by
  cases location with
  | head => rfl
  | «return» =>
      rw [locate, locate, spliceId?_counter]
      rfl
  | instruction text =>
      rw [locate, locate, spliceId?_counter]
      rfl

end Body

namespace MixinContext

variable {site : CallbackSite} {cancel : CancelAction} {own points : List InstrId} {body other next : Body} {point : InstrId}

theorem splice_sameCode (same : body.SameCode other) :
    splice site cancel own other point = splice site cancel own body point := by
  rw [splice, splice, site.build_ok, site.build_ok, same.upcoming, same.handOut (site.length_pos cancel)]

end MixinContext

end CilWeave

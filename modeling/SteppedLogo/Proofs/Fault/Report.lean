import Mathlib.Tactic.Common
import SteppedLogo.Listener.Deed

namespace SteppedLogo

/-- Two faults that are told of in the same way. -/
structure Fault.Agrees (f g : Fault) : Prop where
  kind : g.kind = f.kind
  args : g.args = f.args
  reason : g.reason = f.reason
  inner : g.inner = f.inner

theorem Fault.Agrees.refl (f : Fault) : f.Agrees f := ⟨rfl, rfl, rfl, rfl⟩

theorem Fault.Agrees.trans {f g h : Fault} (hfg : f.Agrees g) (hgh : g.Agrees h) : f.Agrees h :=
  ⟨hgh.kind.trans hfg.kind, hgh.args.trans hfg.args, hgh.reason.trans hfg.reason,
    hgh.inner.trans hfg.inner⟩

theorem Fault.Agrees.symm {f g : Fault} (h : f.Agrees g) : g.Agrees f :=
  ⟨h.kind.symm, h.args.symm, h.reason.symm, h.inner.symm⟩

/-- Faults that agree have one message. -/
theorem Fault.Agrees.message {f g : Fault} (h : f.Agrees g) : g.message = f.message := by
  simp only [Fault.message, h.kind, h.args]

namespace Faults

/-- Every fault is still there, and is told of as before. -/
def Keeps (fs gs : Faults) : Prop :=
  ∀ id f, fs.get? id = some f → ∃ g, gs.get? id = some g ∧ f.Agrees g

theorem Keeps.refl (fs : Faults) : fs.Keeps fs := fun _ f hf => ⟨f, hf, .refl f⟩

theorem Keeps.trans {fs gs hs : Faults} (hfg : fs.Keeps gs) (hgh : gs.Keeps hs) : fs.Keeps hs := by
  intro id f hf
  obtain ⟨g, hg, hagrees⟩ := hfg id f hf
  obtain ⟨h, hh, hagrees'⟩ := hgh id g hg
  exact ⟨h, hh, hagrees.trans hagrees'⟩

/-- A fault that is added is found where it was added. -/
theorem get?_add (fs : Faults) (f : Fault) : (fs.add f).2.get? (fs.add f).1 = some f := by
  simp [Faults.get?, Faults.add]

/-- A fault that is added has its kind. -/
theorem kindOf_add (fs : Faults) (f : Fault) : (fs.add f).2.kindOf (fs.add f).1 = f.kind := by
  rw [kindOf, get?_add]
  rfl

/-- A fault that was there is found as it was when another is added. -/
theorem get?_add_of_some {fs : Faults} {id : FaultId} {g : Fault} (hg : fs.get? id = some g)
    (f : Fault) : (fs.add f).2.get? id = some g := by
  have hlt : id < fs.all.size := by
    by_contra hnot
    simp [Faults.get?, Array.getElem?_eq_none (Nat.le_of_not_lt hnot)] at hg
  simp only [Faults.get?, Faults.add, Array.getElem?_push, if_neg (Nat.ne_of_lt hlt)]
  exact hg

theorem keeps_add (fs : Faults) (f : Fault) : fs.Keeps (fs.add f).2 :=
  fun _ g hg => ⟨g, get?_add_of_some hg f, .refl g⟩

/-- A change of a fault that agrees with it keeps the faults. -/
theorem keeps_modify (fs : Faults) (id : FaultId) {change : Fault → Fault}
    (hchange : ∀ f : Fault, f.Agrees (change f)) : fs.Keeps (fs.modify id change) := by
  intro other f hf
  simp only [Faults.get?] at hf
  by_cases h : id = other
  · exact ⟨change f, by simp [Faults.get?, Faults.modify, Array.getElem?_modify, h, hf], hchange f⟩
  · exact ⟨f, by simp [Faults.get?, Faults.modify, Array.getElem?_modify, h, hf], .refl f⟩

/-- Setting a cause keeps what is told of every fault. -/
theorem keeps_setCause (fs : Faults) (id : FaultId) (cause : Option FaultId) :
    fs.Keeps (fs.setCause id cause) :=
  keeps_modify fs id fun _ => ⟨rfl, rfl, rfl, rfl⟩

/-- Setting a context keeps what is told of every fault. -/
theorem keeps_setContext (fs : Faults) (id : FaultId) (context : Option FaultId) :
    fs.Keeps (fs.setContext id context) :=
  keeps_modify fs id fun _ => ⟨rfl, rfl, rfl, rfl⟩

/-- Cutting a chain of contexts keeps what is told of every fault. -/
theorem keeps_uncontext (id : FaultId) (fuel : Nat) (at_ : FaultId) (fs : Faults) :
    fs.Keeps (fs.uncontext id fuel at_) := by
  induction fuel generalizing at_ with
  | zero => exact .refl fs
  | succ fuel ih =>
    unfold uncontext
    split
    · exact .refl fs
    · split
      · exact keeps_setContext fs at_ none
      · exact ih _

/-- Raising one fault while another is handled keeps what is told of every fault. -/
theorem keeps_raiseWhile (fs : Faults) (handled id : FaultId) :
    fs.Keeps (fs.raiseWhile handled id) := by
  unfold raiseWhile
  split
  · exact .refl fs
  · exact (keeps_uncontext _ _ _ fs).trans (keeps_setContext _ _ _)

/-- A deliberate stop is found at once. -/
theorem findCancellation_self {fs : Faults} {id : FaultId} {f : Fault} (hf : fs.get? id = some f)
    (hkind : f.kind = .cancellation) : fs.findCancellation id = some id := by
  simp [findCancellation, searchFrom, look, hf, hkind]

/-- Behind a fault that is linked to no other one there is no deliberate stop. -/
theorem findCancellation_none {fs : Faults} {id : FaultId} {f : Fault} (hf : fs.get? id = some f)
    (hkind : f.kind ≠ .cancellation) (hnext : f.next? = none) : fs.findCancellation id = none := by
  simp [findCancellation, searchFrom, look, hf, hkind, hnext]

end Faults

/-- Raising a described fault keeps the faults that were there. -/
theorem FaultSpec.keeps_raise (spec : FaultSpec) (fs : Faults) : fs.Keeps (spec.raise fs).2 := by
  induction spec generalizing fs with
  | plain c => exact Faults.keeps_add _ _
  | cancellation reason => exact Faults.keeps_add _ _
  | program inner ih => exact (ih fs).trans (Faults.keeps_add _ _)

end SteppedLogo

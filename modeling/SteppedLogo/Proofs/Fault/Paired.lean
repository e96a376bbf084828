import Mathlib.Data.List.Perm.Subperm
import Mathlib.Logic.Relator
import Mathlib.Order.Basic
import SteppedLogo.Proofs.Fault.Search

namespace SteppedLogo

/-- Two texts that differ at most in the number of a run which they say is still under way: where the first run has
the number 1 in the one, it has the number `k` in the other. -/
inductive Renumbered (k : Nat) : String → String → Prop
  | same (s : String) : Renumbered k s s
  | number (front back : String) {n m : Nat} (hnumber : n + 1 = m + k) :
    Renumbered k (front ++ ("run " ++ toString n ++ " is still ") ++ back) (front ++ ("run " ++ toString m ++ " is still ") ++ back)

/-- A text in front of both leaves them `Renumbered`. -/
theorem Renumbered.behind {k : Nat} {s t : String} (h : Renumbered k s t) (front : String) :
    Renumbered k (front ++ s) (front ++ t) := by
  cases h with
  | same => exact .same _
  | number inner rest hnumber =>
    have hsplit (n : Nat) : front ++ (inner ++ ("run " ++ toString n ++ " is still ") ++ rest) =
        (front ++ inner) ++ ("run " ++ toString n ++ " is still ") ++ rest := by simp only [String.append_assoc]
    rw [hsplit, hsplit]
    exact .number _ _ hnumber

/-- Where both sessions count their runs from 1, `Renumbered` texts are the same. -/
theorem Renumbered.eq {s t : String} (h : Renumbered 1 s t) : s = t := by
  cases h with
  | same => rfl
  | number front back hnumber => rw [Nat.add_right_cancel hnumber]

/-- Which fault of one set stands for which fault of another. -/
abbrev Pairing := FaultId → FaultId → Prop

variable {k : Nat} {T U : Pairing} {same : Prop} {fs gs : Faults} {a b c d id next : FaultId} {f g : Fault}

/-- What is related by one relation, where it is there, is related by a wider one. -/
theorem rel_mono {α β : Type} {R S : α → β → Prop} (hle : R ≤ S) {x : Option α} {y : Option β}
    (h : Option.Rel R x y) : Option.Rel S x y := by
  cases h with
  | some h => exact .some (hle _ _ h)
  | none => exact .none

theorem rel_refl {α : Type} {R : α → α → Prop} (h : ∀ x, R x x) (x : Option α) : Option.Rel R x x := by
  cases x with
  | some x => exact .some (h x)
  | none => exact .none

/-- Two faults that are told of alike, but for the number of a run, and lead to paired ones. -/
structure Fault.Paired (k : Nat) (T : Pairing) (f g : Fault) : Prop where
  kind : f.kind = g.kind
  args : f.args = g.args ∨ f.kind ≠ .key ∧ ∃ s t, f.args = [.text s] ∧ g.args = [.text t] ∧ Renumbered k s t
  reason : f.reason = g.reason
  inner : Option.Rel T f.inner g.inner
  cause : Option.Rel T f.cause g.cause
  context : Option.Rel T f.context g.context

namespace Fault.Paired

/-- The message of a fault is its only argument, unless its kind is that of a missing key. -/
theorem message_of_text {s : String} (hkind : f.kind ≠ .key) (hargs : f.args = [.text s]) : f.message = s := by
  rw [Fault.message, hargs]
  cases hk : f.kind with
  | key => exact absurd hk hkind
  | _ => rfl

/-- The messages of paired faults differ at most in the number of a run. -/
theorem message (h : f.Paired k T g) : Renumbered k f.message g.message := by
  obtain hargs | ⟨hkey, s, t, hs, ht, htext⟩ := h.args
  · have hsame : f.message = g.message := by rw [Fault.message, Fault.message, h.kind, hargs]
    rw [hsame]
    exact .same _
  · rwa [message_of_text hkey hs, message_of_text (h.kind ▸ hkey) ht]

/-- Paired faults have the same summary, but for the number of a run. -/
theorem summary (h : f.Paired k T g) : Renumbered k f.summary g.summary := by
  rw [Fault.summary, Fault.summary, h.kind]
  exact h.message.behind _

/-- Paired faults lead to paired ones, or neither leads on. -/
theorem next? (h : f.Paired k T g) : Option.Rel T f.next? g.next? := by
  obtain ⟨kind, args, reason, inner, cause, context⟩ := f
  obtain ⟨kind', args', reason', inner', cause', context'⟩ := g
  have hcause : Option.Rel T cause cause' := h.cause
  cases hcause with
  | some hab => exact .some hab
  | none => exact h.context

/-- A fault is paired with itself by a pairing that pairs all that it leads to. -/
theorem refl (h : ∀ a, T a a) (f : Fault) : f.Paired k T f :=
  ⟨rfl, .inl rfl, rfl, rel_refl h _, rel_refl h _, rel_refl h _⟩

/-- Faults that are paired stay so when more pairs are made. -/
theorem mono (h : f.Paired k T g) (hle : T ≤ U) : f.Paired k U g :=
  ⟨h.kind, h.args, h.reason, rel_mono hle h.inner, rel_mono hle h.cause, rel_mono hle h.context⟩

/-- One complaint raised on both sides gives paired faults. -/
theorem ofComplaint (c : Complaint) : (Fault.ofComplaint c).Paired k T (.ofComplaint c) :=
  ⟨rfl, .inl rfl, rfl, .none, .none, .none⟩

/-- A cancellation raised with one reason on both sides gives paired faults. -/
theorem cancellation (reason : Value) : (Fault.cancellation reason).Paired k T (.cancellation reason) :=
  ⟨rfl, .inl rfl, rfl, .none, .none, .none⟩

/-- The failures of a program that paired faults have stopped are paired. -/
theorem ofProgram (h : f.Paired k T g) (hab : T a b) : (Fault.ofProgram a f).Paired k T (.ofProgram b g) :=
  ⟨rfl, .inr ⟨nofun, _, _, rfl, rfl, h.summary⟩, rfl, .some hab, .none, .none⟩

end Fault.Paired

namespace Faults

/-- Faults are paired one to one, each with one that is told of alike. Where the two sets are the `same`, as many faults
have been raised in both, and each is paired with the one of its own identity; else only faults that have been raised are
paired. -/
structure Paired (k : Nat) (same : Prop) (T : Pairing) (fs gs : Faults) : Prop where
  unique : Relator.BiUnique T
  told : ∀ a b, T a b → Option.Rel (Fault.Paired k T) (fs.get? a) (gs.get? b)
  size : same → fs.all.size = gs.all.size
  pairs : same → ∀ a b, T a b ↔ a = b
  raised : ¬ same → ∀ a b, T a b → a < fs.all.size

theorem lt_of_get (hf : fs.get? a = some f) : a < fs.all.size := (Array.getElem?_eq_some_iff.1 hf).1

theorem size_add (fs : Faults) (f : Fault) : (fs.add f).2.all.size = fs.all.size + 1 := Array.size_push f

theorem size_modify (fs : Faults) (id : FaultId) (change : Fault → Fault) :
    (fs.modify id change).all.size = fs.all.size := Array.size_modify

/-- Adding a fault leaves what is found at every other place as it was. -/
theorem get?_of_size_add (hne : a ≠ fs.all.size) (f : Fault) : (fs.add f).2.get? a = fs.get? a := by
  simp [add, get?, Array.getElem?_push, hne]

namespace Paired

/-- A set of faults is the same as itself. -/
theorem refl (k : Nat) (fs : Faults) : fs.Paired k True Eq fs where
  unique := ⟨fun _ _ _ hab hcb => hab.trans hcb.symm, fun _ _ _ hab hac => hab.symm.trans hac⟩
  told := by
    rintro a _ rfl
    exact rel_refl (Fault.Paired.refl fun _ => rfl) _
  size _ := rfl
  pairs _ _ _ := .rfl
  raised h := absurd trivial h

/-- Where two faults stand for each other, neither is in its set or both are and are paired. -/
theorem get (h : fs.Paired k same T gs) (hab : T a b) : fs.get? a = none ∧ gs.get? b = none ∨
    ∃ f g, fs.get? a = some f ∧ gs.get? b = some g ∧ f.Paired k T g := by
  have htold := h.told a b hab
  generalize fs.get? a = x at htold
  generalize gs.get? b = y at htold
  cases htold with
  | some hfg => exact .inr ⟨_, _, rfl, rfl, hfg⟩
  | none => exact .inl ⟨rfl, rfl⟩

/-- Paired places hold paired faults, also where both stand for one that is not there. -/
theorem getD (h : fs.Paired k same T gs) (hab : T a b) :
    ((fs.get? a).getD { kind := .general }).Paired k T ((gs.get? b).getD { kind := .general }) := by
  obtain ⟨hf, hg⟩ | ⟨f, g, hf, hg, hfg⟩ := h.get hab
  · rw [hf, hg]
    exact ⟨rfl, .inl rfl, rfl, .none, .none, .none⟩
  · rwa [hf, hg]

/-- Faults that stand for each other are of one kind. -/
theorem kindOf (h : fs.Paired k same T gs) (hab : T a b) : fs.kindOf a = gs.kindOf b := by
  obtain ⟨hf, hg⟩ | ⟨f, g, hf, hg, hfg⟩ := h.get hab
  · rw [Faults.kindOf, Faults.kindOf, hf, hg]
  · rw [Faults.kindOf, Faults.kindOf, hf, hg]
    exact hfg.kind

/-- Faults that stand for each other give one reason. -/
theorem reasonOf (h : fs.Paired k same T gs) (hab : T a b) : fs.reasonOf a = gs.reasonOf b := by
  obtain ⟨hf, hg⟩ | ⟨f, g, hf, hg, hfg⟩ := h.get hab
  · rw [Faults.reasonOf, Faults.reasonOf, hf, hg]
  · rw [Faults.reasonOf, Faults.reasonOf, hf, hg]
    exact hfg.reason

/-- `messageOf` gives the same, but for the number of a run. -/
theorem messageOf (h : fs.Paired k same T gs) (hab : T a b) : Renumbered k (fs.messageOf a) (gs.messageOf b) := by
  obtain ⟨hf, hg⟩ | ⟨f, g, hf, hg, hfg⟩ := h.get hab
  · rw [Faults.messageOf, Faults.messageOf, hf, hg]
    exact .same _
  · rw [Faults.messageOf, Faults.messageOf, hf, hg]
    exact hfg.message

/-- Two faults are one exactly if those that stand for them are one. -/
theorem eq_iff (h : fs.Paired k same T gs) (hab : T a b) (hcd : T c d) : a = c ↔ b = d :=
  ⟨fun heq => h.unique.2 hab (heq ▸ hcd), fun heq => h.unique.1 hab (heq ▸ hcd)⟩

/-- Where the sets need not be the same, either may go on to raise faults that the other does not. -/
theorem grow {fs' gs' : Faults} (h : fs.Paired k same T gs) (hloose : ¬ same)
    (hfs : ∀ id f, fs.get? id = some f → fs'.get? id = some f)
    (hgs : ∀ id g, gs.get? id = some g → gs'.get? id = some g) : fs'.Paired k same T gs' := by
  have hget (a b : FaultId) (hab : T a b) : ∃ f g, fs.get? a = some f ∧ gs.get? b = some g ∧ f.Paired k T g := by
    obtain ⟨hf, -⟩ | hboth := h.get hab
    · exact absurd (h.raised hloose a b hab) (Nat.not_lt.2 (Array.getElem?_eq_none_iff.1 hf))
    · exact hboth
  refine ⟨h.unique, fun a b hab => ?_, fun hsame => absurd hsame hloose, fun hsame => absurd hsame hloose,
    fun _ a b hab => ?_⟩
  · obtain ⟨f, g, hf, hg, hfg⟩ := hget a b hab
    rw [hfs a f hf, hgs b g hg]
    exact .some hfg
  · obtain ⟨f, g, hf, -, -⟩ := hget a b hab
    exact lt_of_get (hfs a f hf)

/-- The faults that are raised next are paired already, where the sets are the same. -/
theorem next_of_same (h : fs.Paired k same T gs) (hsame : same) : T fs.all.size gs.all.size :=
  (h.pairs hsame _ _).2 (h.size hsame)

/-- Two faults that are raised in both are paired from then on. -/
theorem add (h : fs.Paired k same T gs) (hfg : f.Paired k T g) : ∃ U, T ≤ U ∧ U (fs.add f).1 (gs.add g).1 ∧
    (fs.add f).2.Paired k same U (gs.add g).2 := by
  by_cases hsame : same
  · refine ⟨T, le_rfl, h.next_of_same hsame, ⟨h.unique, fun a b hab => ?_, fun _ => ?_, h.pairs, fun hloose => ?_⟩⟩
    · obtain rfl : a = b := (h.pairs hsame a b).1 hab
      by_cases hnew : a = fs.all.size
      · have hnew' : a = gs.all.size := hnew.trans (h.size hsame)
        have hf : (fs.add f).2.get? a = some f := hnew ▸ get?_add fs f
        have hg : (gs.add g).2.get? a = some g := hnew' ▸ get?_add gs g
        rw [hf, hg]
        exact .some hfg
      · rw [get?_of_size_add hnew, get?_of_size_add (h.size hsame ▸ hnew)]
        exact h.told a a hab
    · rw [size_add, size_add, h.size hsame]
    · exact absurd hsame hloose
  · let U : Pairing := fun a b => T a b ∨ a = fs.all.size ∧ b = gs.all.size
    have hle : T ≤ U := fun a b hab => .inl hab
    have hget (a b : FaultId) (hab : T a b) : ∃ f g, fs.get? a = some f ∧ gs.get? b = some g ∧ f.Paired k T g := by
      obtain ⟨hf, -⟩ | hboth := h.get hab
      · exact absurd (h.raised hsame a b hab) (Nat.not_lt.2 (Array.getElem?_eq_none_iff.1 hf))
      · exact hboth
    have hlt (a b : FaultId) (hab : T a b) : a < fs.all.size ∧ b < gs.all.size := by
      obtain ⟨f, g, hf, hg, -⟩ := hget a b hab
      exact ⟨lt_of_get hf, lt_of_get hg⟩
    refine ⟨U, hle, .inr ⟨rfl, rfl⟩, ⟨⟨?_, ?_⟩, ?_, fun h => absurd h hsame, fun h => absurd h hsame, fun _ => ?_⟩⟩
    · rintro a c b (hab | ⟨ha, hb⟩) (hcb | ⟨hc, hb'⟩)
      · exact h.unique.1 hab hcb
      · exact absurd hb' (Nat.ne_of_lt (hlt a b hab).2)
      · exact absurd hb (Nat.ne_of_lt (hlt c b hcb).2)
      · exact ha.trans hc.symm
    · rintro a b c (hab | ⟨ha, hb⟩) (hac | ⟨ha', hc⟩)
      · exact h.unique.2 hab hac
      · exact absurd ha' (Nat.ne_of_lt (hlt a b hab).1)
      · exact absurd ha (Nat.ne_of_lt (hlt a c hac).1)
      · exact hb.trans hc.symm
    · rintro a b (hab | ⟨rfl, rfl⟩)
      · obtain ⟨f', g', hf, hg, hfg'⟩ := hget a b hab
        rw [get?_add_of_some hf f, get?_add_of_some hg g]
        exact .some (hfg'.mono hle)
      · rw [show (fs.add f).2.get? fs.all.size = some f from get?_add fs f,
          show (gs.add g).2.get? gs.all.size = some g from get?_add gs g]
        exact .some (hfg.mono hle)
    · rintro a b (hab | ⟨rfl, -⟩)
      · rw [size_add]
        exact Nat.lt_succ_of_lt (hlt a b hab).1
      · rw [size_add]
        exact Nat.lt_succ_self _

/-- A paired fault may change in both as long as it is told of alike. -/
theorem modify (h : fs.Paired k same T gs) (hab : T a b) {change change' : Fault → Fault}
    (hchange : ∀ f g, f.Paired k T g → (change f).Paired k T (change' g)) :
    (fs.modify a change).Paired k same T (gs.modify b change') := by
  refine ⟨h.unique, fun c d hcd => ?_, fun hsame => ?_, h.pairs, fun hloose c d hcd => ?_⟩
  · simp only [Faults.modify, get?, Array.getElem?_modify, h.eq_iff hab hcd]
    split
    · obtain ⟨hf, hg⟩ | ⟨f, g, hf, hg, hfg⟩ := h.get hcd
      · rw [show fs.all[c]? = none from hf, show gs.all[d]? = none from hg]
        exact .none
      · rw [show fs.all[c]? = some f from hf, show gs.all[d]? = some g from hg]
        exact .some (hchange f g hfg)
    · exact h.told c d hcd
  · rw [size_modify, size_modify, h.size hsame]
  · rw [size_modify]
    exact h.raised hloose c d hcd

/-- Setting paired causes in faults that stand for each other keeps the pairing. -/
theorem setCause (h : fs.Paired k same T gs) (hab : T a b) {cause cause' : Option FaultId}
    (hlink : Option.Rel T cause cause') : (fs.setCause a cause).Paired k same T (gs.setCause b cause') :=
  h.modify hab fun _ _ hfg => ⟨hfg.kind, hfg.args, hfg.reason, hfg.inner, hlink, hfg.context⟩

/-- Setting paired contexts in faults that stand for each other keeps the pairing. -/
theorem setContext (h : fs.Paired k same T gs) (hab : T a b) {context context' : Option FaultId}
    (hlink : Option.Rel T context context') : (fs.setContext a context).Paired k same T (gs.setContext b context') :=
  h.modify hab fun _ _ hfg => ⟨hfg.kind, hfg.args, hfg.reason, hfg.inner, hfg.cause, hlink⟩

end Paired

/-- Faults that stand for each other are of one kind, and lead to faults that stand for each other. -/
def Linked (T : Pairing) (fs gs : Faults) : Prop :=
  ∀ a b, T a b → Option.Rel (fun f g => f.kind = g.kind ∧ Option.Rel T f.next? g.next?) (fs.get? a) (gs.get? b)

/-- Paired sets are of one kind fault by fault, and lead to faults that stand for each other. -/
theorem Paired.linked (h : fs.Paired k same T gs) : fs.Linked T gs :=
  fun a b hab => rel_mono (fun _ _ hfg => ⟨hfg.kind, hfg.next?⟩) (h.told a b hab)

namespace Linked

/-- Two linked sets are linked the other way round. -/
theorem swap (h : fs.Linked T gs) : gs.Linked (fun b a => T a b) fs := by
  have hrel {α : Type} {R : α → α → Prop} {x y : Option α} (hxy : Option.Rel R x y) : Option.Rel (fun b a => R a b) y x := by
    cases hxy with
    | some hab => exact .some hab
    | none => exact .none
  exact fun b a hab => rel_mono (fun _ _ hfg => ⟨hfg.1.symm, hrel hfg.2⟩) (hrel (h a b hab))

/-- A fault that stands for one that is there is there itself, of the same kind and leading to its like. -/
theorem get (h : fs.Linked T gs) (hab : T a b) (hf : fs.get? a = some f) :
    ∃ g, gs.get? b = some g ∧ f.kind = g.kind ∧ Option.Rel T f.next? g.next? := by
  have hlink := h a b hab
  rw [hf] at hlink
  cases hg : gs.get? b with
  | none =>
    rw [hg] at hlink
    cases hlink
  | some g =>
    rw [hg] at hlink
    cases hlink with
    | some hfg => exact ⟨g, rfl, hfg⟩

/-- The faults that a search `Visits` stand for those that it visits in the other set. -/
theorem visits (h : fs.Linked T gs) (hab : T a b) (hvisits : fs.Visits a c) : ∃ d, T c d ∧ gs.Visits b d := by
  induction hvisits with
  | refl => exact ⟨b, hab, .refl⟩
  | tail _ hgoes ih =>
    obtain ⟨d, hcd, hvisited⟩ := ih
    obtain ⟨f, hf, hkind, hnext⟩ := hgoes
    obtain ⟨g, hg, hsame, hlink⟩ := h.get hcd hf
    rw [hnext] at hlink
    cases hg' : g.next? with
    | none =>
      rw [hg'] at hlink
      cases hlink
    | some e =>
      rw [hg'] at hlink
      cases hlink with
      | some hne => exact ⟨e, hne, hvisited.tail ⟨g, hg, hsame ▸ hkind, hg'⟩⟩

/-- A fault that stands for a stop is a stop. -/
theorem isStop (h : fs.Linked T gs) (hab : T a b) (hstop : fs.IsStop a) : gs.IsStop b := by
  obtain ⟨f, hf, hkind⟩ := hstop
  obtain ⟨g, hg, hsame, -⟩ := h.get hab hf
  exact ⟨g, hg, hsame ▸ hkind⟩

end Linked

/-- `findCancellation` comes to the same stop. -/
theorem Paired.findCancellation (h : fs.Paired k same T gs) (hab : T a b) :
    Option.Rel T (fs.findCancellation a) (gs.findCancellation b) := by
  have hlinked := h.linked
  obtain ⟨c, hc, hvisits, hstop⟩ | ⟨hnone, hall⟩ := findCancellation_cases fs a
  · obtain ⟨d, hcd, hvisits'⟩ := hlinked.visits hab hvisits
    rw [hc, findCancellation_eq_some_iff.2 ⟨hvisits', hlinked.isStop hcd hstop⟩]
    exact .some hcd
  · have hnone' : gs.findCancellation b = none := by
      refine findCancellation_eq_none_iff.2 fun d hvisits hstop => ?_
      obtain ⟨c, hcd, hvisits'⟩ := hlinked.swap.visits hab hvisits
      exact hall c hvisits' (hlinked.swap.isStop hcd hstop)
    rw [hnone, hnone']
    exact .none

/-- The faults that have been passed on a chain of contexts are different ones, and none of them leads to `id`; each leads
to another one of them, or to where the chain is now. -/
structure Passed (fs : Faults) (id : FaultId) (seen : List FaultId) (at_ : FaultId) : Prop where
  nodup : seen.Nodup
  leads : ∀ a ∈ seen, ∃ b, (fs.get? a).bind Fault.context = some b ∧ b ≠ id ∧ (b ∈ seen ∨ b = at_)

variable {seen : List FaultId}

theorem lt_of_context (h : (fs.get? a).bind Fault.context = some b) : a < fs.all.size := by
  obtain ⟨f, hf, -⟩ := Option.bind_eq_some_iff.1 h
  exact lt_of_get hf

/-- There are no more different faults than the set holds. -/
theorem length_le_of_nodup (hnodup : seen.Nodup) (hlt : ∀ a ∈ seen, a < fs.all.size) : seen.length ≤ fs.all.size := by
  have hsubset : seen ⊆ List.range fs.all.size := fun a ha => List.mem_range.2 (hlt a ha)
  simpa using (List.subperm_of_subset hnodup hsubset).length_le

/-- No link is cut on a chain that comes back to itself. -/
theorem Passed.uncontext (h : fs.Passed id seen a) (ha : a ∈ seen) (fuel : Nat) : fs.uncontext id fuel a = fs := by
  induction fuel generalizing a with
  | zero => rfl
  | succ fuel ih =>
    obtain ⟨b, hb, hne, hseen⟩ := h.leads a ha
    have hmem : b ∈ seen := hseen.elim (fun hb => hb) fun heq => heq ▸ ha
    have hpassed : fs.Passed id seen b := by
      refine ⟨h.nodup, fun c hc => ?_⟩
      obtain ⟨e, he, hne, hseen⟩ := h.leads c hc
      exact ⟨e, he, hne, .inl (hseen.elim (fun he => he) fun heq => heq ▸ ha)⟩
    simp only [Faults.uncontext, hb, if_neg hne]
    exact ih hpassed hmem

/-- A further fault on a chain of contexts may be passed if it has not been and does not lead to the one at which the chain
is cut. -/
theorem Passed.cons (h : fs.Passed id seen a) (ha : a ∉ seen) (hb : (fs.get? a).bind Fault.context = some b) (hne : b ≠ id) :
    fs.Passed id (a :: seen) b := by
  refine ⟨List.nodup_cons.2 ⟨ha, h.nodup⟩, fun c hc => ?_⟩
  obtain rfl | hc := List.mem_cons.1 hc
  · exact ⟨b, hb, hne, .inr rfl⟩
  · obtain ⟨e, he, hne, hseen | rfl⟩ := h.leads c hc
    · exact ⟨e, he, hne, .inl (List.mem_cons_of_mem _ hseen)⟩
    · exact ⟨e, he, hne, .inl List.mem_cons_self⟩

/-- As many steps as there are faults are enough to come to a link that is to be cut. -/
theorem Passed.uncontext_eq {fs : Faults} {id a : FaultId} {seen : List FaultId} (h : fs.Passed id seen a) {n m : Nat}
    (hn : fs.all.size ≤ n + seen.length) (hm : fs.all.size ≤ m + seen.length) :
    fs.uncontext id n a = fs.uncontext id m a := by
  by_cases ha : a ∈ seen
  · rw [h.uncontext ha, h.uncontext ha]
  cases hb : (fs.get? a).bind Fault.context with
  | none =>
    have hends (k : Nat) : fs.uncontext id k a = fs := by
      cases k with
      | zero => rfl
      | succ k => simp only [Faults.uncontext, hb]
    rw [hends, hends]
  | some b =>
    have hroom : (a :: seen).length ≤ fs.all.size := by
      refine length_le_of_nodup (List.nodup_cons.2 ⟨ha, h.nodup⟩) fun c hc => ?_
      obtain rfl | hc := List.mem_cons.1 hc
      · exact lt_of_context hb
      · obtain ⟨e, he, -⟩ := h.leads c hc
        exact lt_of_context he
    rw [List.length_cons] at hroom
    obtain ⟨n, rfl⟩ : ∃ k, n = k + 1 := Nat.exists_eq_add_one.2 (by omega)
    obtain ⟨m, rfl⟩ : ∃ k, m = k + 1 := Nat.exists_eq_add_one.2 (by omega)
    simp only [Faults.uncontext, hb]
    split
    · rfl
    · next hne => exact (h.cons ha hb hne).uncontext_eq (by rw [List.length_cons]; omega) (by rw [List.length_cons]; omega)
termination_by n

/-- Cutting a chain of contexts with at least as much fuel as there are faults gives the same set: the chain never ends for
want of fuel. -/
theorem uncontext_eq {n : Nat} (hn : fs.all.size ≤ n) : fs.uncontext id fs.all.size a = fs.uncontext id n a := by
  have hstart : fs.Passed id [] a := ⟨List.nodup_nil, nofun⟩
  exact hstart.uncontext_eq (Nat.le_refl _) hn

namespace Paired

/-- Faults that stand for each other have contexts that do, or neither has one. -/
theorem context (h : fs.Paired k same T gs) (hab : T a b) :
    Option.Rel T ((fs.get? a).bind Fault.context) ((gs.get? b).bind Fault.context) := by
  obtain ⟨hf, hg⟩ | ⟨f, g, hf, hg, hfg⟩ := h.get hab
  · rw [hf, hg]
    exact .none
  · rw [hf, hg]
    exact hfg.context

/-- The same link is cut on a chain of contexts. -/
theorem uncontext (h : fs.Paired k same T gs) (hab : T a b) (hcd : T c d) (fuel : Nat) :
    (fs.uncontext c fuel a).Paired k same T (gs.uncontext d fuel b) := by
  induction fuel generalizing a b with
  | zero => exact h
  | succ fuel ih =>
    have hlink := h.context hab
    simp only [Faults.uncontext]
    generalize (fs.get? a).bind Fault.context = x at hlink
    generalize (gs.get? b).bind Fault.context = y at hlink
    cases hlink with
    | none => exact h
    | some hxy =>
      simp only [h.eq_iff hxy hcd]
      split
      · exact h.setContext hab .none
      · exact ih hxy

/-- Raising paired faults while paired ones are handled keeps the pairing, also where a chain of contexts is cut. -/
theorem raiseWhile (h : fs.Paired k same T gs) (hab : T a b) (hcd : T c d) :
    (fs.raiseWhile a c).Paired k same T (gs.raiseWhile b d) := by
  simp only [Faults.raiseWhile, h.eq_iff hab hcd]
  split
  · exact h
  · rw [uncontext_eq (Nat.le_max_left fs.all.size gs.all.size), uncontext_eq (Nat.le_max_right fs.all.size gs.all.size)]
    exact (h.uncontext hab hcd _).setContext hcd (.some hab)

/-- What a `FaultSpec` describes is raised alike. -/
theorem raise (h : fs.Paired k same T gs) (spec : FaultSpec) : ∃ U, T ≤ U ∧ U (spec.raise fs).1 (spec.raise gs).1 ∧
    (spec.raise fs).2.Paired k same U (spec.raise gs).2 := by
  induction spec with
  | plain c => exact h.add (.ofComplaint c)
  | cancellation reason => exact h.add (.cancellation reason)
  | program inner ih =>
    obtain ⟨U, hle, hid, hpaired⟩ := ih
    obtain ⟨V, hle', hid', hpaired'⟩ := hpaired.add ((hpaired.getD hid).ofProgram hid)
    exact ⟨V, hle.trans hle', hid', hpaired'⟩

end Paired

end Faults

end SteppedLogo

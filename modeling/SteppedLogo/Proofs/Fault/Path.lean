import Mathlib.Data.List.Nodup
import SteppedLogo.Proofs.Fault.Report

namespace SteppedLogo.Faults

variable {fs : Faults} {e id next c : FaultId} {seen : List FaultId} {n k : Nat}

def IsStop (fs : Faults) (c : FaultId) : Prop := ∃ f, fs.get? c = some f ∧ f.kind = .cancellation

/-- The fault to which a fault leads. -/
def leads? (fs : Faults) (id : FaultId) : Option FaultId := (fs.get? id).bind Fault.next?

/-- The faults on the path from a fault, itself the first one. -/
def along (fs : Faults) (e : FaultId) : Nat → Option FaultId
  | 0 => some e
  | n + 1 => (fs.along e n).bind fs.leads?

/-- None of the first `n` faults on the path is a deliberate stop. -/
def Unstopped (fs : Faults) (e : FaultId) (n : Nat) : Prop := ∀ k < n, ∀ d, fs.along e k = some d → ¬ fs.IsStop d

/-- The path ends before its fault `n`, or has come to this fault before. -/
def Closes (fs : Faults) (e : FaultId) (n : Nat) : Prop := fs.along e n = none ∨ ∃ k < n, fs.along e k = fs.along e n

/-- The deliberate stop `c` is the first one on the path. -/
def FirstStop (fs : Faults) (e c : FaultId) : Prop := ∃ n, fs.along e n = some c ∧ fs.IsStop c ∧ fs.Unstopped e n

theorem Unstopped.succ (h : fs.Unstopped e n) (hid : fs.along e n = some id) (hplain : ¬ fs.IsStop id) :
    fs.Unstopped e (n + 1) := by
  intro k hk d hd
  obtain hlt | rfl := Nat.lt_succ_iff_lt_or_eq.1 hk
  · exact h k hlt d hd
  · rw [hid] at hd
    cases hd
    exact hplain

theorem along_of_none (hnone : fs.along e n = none) (hle : n ≤ k) : fs.along e k = none := by
  induction hle with
  | refl => exact hnone
  | step _ ih => rw [along, ih, Option.bind_none]

theorem along_add (hsame : fs.along e k = fs.along e n) (m : Nat) : fs.along e (k + m) = fs.along e (n + m) := by
  induction m with
  | zero => exact hsame
  | succ m ih => rw [← Nat.add_assoc, ← Nat.add_assoc, along, along, ih]

/-- Where there is no deliberate stop until a path ends or comes back to itself, there is none at all. -/
theorem Unstopped.always (h : fs.Unstopped e n) (hcloses : fs.Closes e n) (m : Nat) : fs.Unstopped e m := by
  intro k hk
  clear hk
  induction k using Nat.strongRecOn with
  | ind k ih =>
    intro d hd
    obtain hlt | hle := Nat.lt_or_ge k n
    · exact h k hlt d hd
    obtain hnone | ⟨j, hj, hsame⟩ := hcloses
    · rw [along_of_none hnone hle] at hd
      cases hd
    · -- the fault was on the path already, one round earlier
      have hround := along_add hsame (k - n)
      rw [Nat.add_sub_cancel' hle, hd] at hround
      exact ih (j + (k - n)) (by omega) d hround

theorem FirstStop.not_unstopped (h : fs.FirstStop e c) (hall : ∀ m, fs.Unstopped e m) : False := by
  obtain ⟨n, hn, hstop, -⟩ := h
  exact hall (n + 1) n (Nat.lt_succ_self n) c hn hstop

theorem FirstStop.unique {d : FaultId} (hc : fs.FirstStop e c) (hd : fs.FirstStop e d) : c = d := by
  obtain ⟨n, hn, hstop, hbefore⟩ := hc
  obtain ⟨m, hm, hstop', hbefore'⟩ := hd
  obtain hlt | rfl | hlt := Nat.lt_trichotomy n m
  · exact absurd hstop (hbefore' n hlt c hn)
  · exact Option.some.inj (hn.symm.trans hm)
  · exact absurd hstop' (hbefore m hlt d hm)

/-- What a look comes to: a deliberate stop is the answer, any other fault leads on or ends the search. -/
theorem look_cases (fs : Faults) (id : FaultId) :
    (fs.look id = .ends (some id) ∧ fs.IsStop id) ∨
    (fs.look id = .ends none ∧ ¬ fs.IsStop id ∧ fs.leads? id = none) ∨
    ∃ next, fs.look id = .goes next ∧ ¬ fs.IsStop id ∧ fs.leads? id = some next := by
  unfold look leads? IsStop
  cases fs.get? id with
  | none => exact .inr (.inl ⟨rfl, by simp, rfl⟩)
  | some f =>
    dsimp only
    by_cases hkind : f.kind = .cancellation
    · exact .inl ⟨if_pos hkind, f, rfl, hkind⟩
    · have hplain : ¬ ∃ g, some f = some g ∧ g.kind = .cancellation := by simpa using hkind
      rw [if_neg hkind, Option.bind_some]
      cases f.next? with
      | none => exact .inr (.inl ⟨rfl, hplain, rfl⟩)
      | some next => exact .inr (.inr ⟨next, rfl, hplain, rfl⟩)

/-- The faults that a search which has `seen` some can still look at. -/
def unseen (fs : Faults) (seen : List FaultId) : List FaultId := (List.range fs.all.size).filter (!seen.contains ·)

theorem lt_size_of_look (h : fs.look id = .goes next) : id < fs.all.size := by
  obtain ⟨hends, -⟩ | ⟨hends, -⟩ | ⟨k, -, -, hleads⟩ := fs.look_cases id
  · cases h.symm.trans hends
  · cases h.symm.trans hends
  · obtain ⟨f, hget, -⟩ := Option.bind_eq_some_iff.1 hleads
    obtain ⟨hlt, -⟩ := Array.getElem?_eq_some_iff.1 hget
    exact hlt

/-- A fault that leads on is seen from then on. -/
theorem length_unseen_lt (hseen : ¬ seen.contains id) (hlook : fs.look id = .goes next) :
    (fs.unseen (id :: seen)).length < (fs.unseen seen).length := by
  have hfilter : fs.unseen (id :: seen) = (fs.unseen seen).filter (· != id) := by
    rw [unseen, unseen, List.filter_filter]
    refine List.filter_congr fun a _ => ?_
    rw [List.contains_cons, Bool.not_or]
    rfl
  rw [hfilter, List.length_filter_lt_length_iff_exists]
  refine ⟨id, List.mem_filter.2 ⟨List.mem_range.2 (lt_size_of_look hlook), by simpa using hseen⟩, by simp⟩

/-- The search without fuel, and the faults that it looks at, one after the other: each fault that leads on leaves fewer to
    look at. -/
def searchNoted (fs : Faults) (seen : List FaultId) (id : FaultId) : Option FaultId × List FaultId :=
  if seen.contains id then (none, [])
  else match _hlook : fs.look id with
    | .ends found => (found, [id])
    | .goes next =>
      (searchNoted fs (id :: seen) next).map (fun found => found) (id :: ·)
termination_by (fs.unseen seen).length
decreasing_by exact length_unseen_lt ‹_› _hlook

/-- With enough fuel a search does not end for want of it. -/
theorem searchFrom_eq {fuel : Nat} (hfuel : (fs.unseen seen).length < fuel) :
    fs.searchFrom fuel seen id = (fs.searchNoted seen id).1 := by
  fun_induction searchNoted fs seen id generalizing fuel with
  | case1 seen id hseen =>
    obtain ⟨fuel, rfl⟩ := Nat.exists_eq_add_one_of_ne_zero (Nat.ne_zero_of_lt hfuel)
    rw [searchFrom, if_pos hseen]
  | case2 seen id hseen found hlook =>
    obtain ⟨fuel, rfl⟩ := Nat.exists_eq_add_one_of_ne_zero (Nat.ne_zero_of_lt hfuel)
    rw [searchFrom, if_neg hseen, hlook]
  | case3 seen id hseen next hlook ih =>
    obtain ⟨fuel, rfl⟩ := Nat.exists_eq_add_one_of_ne_zero (Nat.ne_zero_of_lt hfuel)
    rw [searchFrom, if_neg hseen, hlook]
    have hless := length_unseen_lt hseen hlook
    exact ih (by omega)

theorem searchFrom_of_size {fuel : Nat} (hfuel : fs.all.size < fuel) (e : FaultId) :
    fs.searchFrom fuel [] e = (fs.searchNoted [] e).1 := by
  have hle : (fs.unseen []).length ≤ (List.range fs.all.size).length := List.length_filter_le ..
  rw [List.length_range] at hle
  exact searchFrom_eq (Nat.lt_of_le_of_lt hle hfuel)

theorem findCancellation_eq (fs : Faults) (e : FaultId) : fs.findCancellation e = (fs.searchNoted [] e).1 :=
  searchFrom_of_size (Nat.lt_succ_self _) e

/-- A search has seen the first faults of the path, none of them twice and none a deliberate stop, and is at the next one. -/
structure Follows (fs : Faults) (e : FaultId) (seen : List FaultId) (id : FaultId) : Prop where
  path : ∀ k < seen.length, seen.reverse[k]? = fs.along e k
  here : fs.along e seen.length = some id
  nodup : seen.Nodup
  unstopped : fs.Unstopped e seen.length

theorem follows_start (fs : Faults) (e : FaultId) : fs.Follows e [] e :=
  ⟨fun _ hk => absurd hk (Nat.not_lt_zero _), rfl, List.nodup_nil, fun _ hk => absurd hk (Nat.not_lt_zero _)⟩

/-- With the fault at which the search is, these still are the first ones of the path. -/
theorem Follows.path_cons (h : fs.Follows e seen id) : ∀ k < (id :: seen).length, (id :: seen).reverse[k]? =
    fs.along e k := by
  intro k hk
  rw [List.reverse_cons]
  obtain hlt | rfl := Nat.lt_succ_iff_lt_or_eq.1 hk
  · rw [List.getElem?_append_left (by rwa [List.length_reverse]), h.path k hlt]
  · rw [List.getElem?_append_right (Nat.le_of_eq List.length_reverse), List.length_reverse, Nat.sub_self, h.here]
    rfl

/-- A step of the search. -/
theorem Follows.goes (h : fs.Follows e seen id) (hseen : id ∉ seen) (hplain : ¬ fs.IsStop id)
    (hleads : fs.leads? id = some next) :
    fs.Follows e (id :: seen) next where
  path := h.path_cons
  here := by rw [List.length_cons, along, h.here, Option.bind_some, hleads]
  nodup := List.nodup_cons.2 ⟨hseen, h.nodup⟩
  unstopped := h.unstopped.succ h.here hplain

/-- The faults that were looked at are the first ones of the path, each looked at once, and the answer is the first
    deliberate stop, or none where the path closes before there is one. -/
structure Answers (fs : Faults) (e : FaultId) (looked : List FaultId) (found : Option FaultId) : Prop where
  path : ∀ k < looked.length, looked[k]? = fs.along e k
  nodup : looked.Nodup
  stop : ∀ c, found = some c → fs.FirstStop e c
  missed : found = none → ∃ n, fs.Unstopped e n ∧ fs.Closes e n

/-- A whole search. -/
theorem Follows.answers (h : fs.Follows e seen id) :
    fs.Answers e (seen.reverse ++ (fs.searchNoted seen id).2) (fs.searchNoted seen id).1 := by
  fun_induction searchNoted fs seen id with
  | case1 seen id hseen =>
    have hreverse : ∀ k < seen.reverse.length, seen.reverse[k]? = fs.along e k := by
      rw [List.length_reverse]
      exact h.path
    obtain ⟨k, hk, hget⟩ := List.getElem_of_mem (List.mem_reverse.2 (List.contains_iff_mem.1 hseen))
    have hagain : fs.along e k = fs.along e seen.length := by
      rw [← hreverse k hk, List.getElem?_eq_getElem hk, hget, h.here]
    rw [List.append_nil]
    refine ⟨hreverse, List.nodup_reverse.2 h.nodup, fun c hc => (by cases hc),
      fun _ => ⟨seen.length, h.unstopped, .inr ⟨k, ?_, hagain⟩⟩⟩
    rwa [List.length_reverse] at hk
  | case2 seen id hseen found hlook =>
    have hid : id ∉ seen := fun hmem => hseen (List.contains_iff_mem.2 hmem)
    have hlooked : seen.reverse ++ [id] = (id :: seen).reverse := List.reverse_cons.symm
    rw [hlooked]
    refine ⟨?_, List.nodup_reverse.2 (List.nodup_cons.2 ⟨hid, h.nodup⟩), ?_, ?_⟩
    · rw [List.length_reverse]
      exact h.path_cons
    · rintro c rfl
      obtain ⟨hends, hstop⟩ | ⟨hends, -⟩ | ⟨next, hgoes, -⟩ := fs.look_cases id
      · cases hlook.symm.trans hends
        exact ⟨seen.length, h.here, hstop, h.unstopped⟩
      · cases hlook.symm.trans hends
      · cases hlook.symm.trans hgoes
    · rintro rfl
      obtain ⟨hends, -⟩ | ⟨-, hplain, hleads⟩ | ⟨next, hgoes, -⟩ := fs.look_cases id
      · cases hlook.symm.trans hends
      · refine ⟨seen.length + 1, h.unstopped.succ h.here hplain, .inl ?_⟩
        rw [along, h.here, Option.bind_some, hleads]
      · cases hlook.symm.trans hgoes
  | case3 seen id hseen next hlook ih =>
    have hid : id ∉ seen := fun hmem => hseen (List.contains_iff_mem.2 hmem)
    obtain ⟨hends, -⟩ | ⟨hends, -⟩ | ⟨k, hgoes, hplain, hleads⟩ := fs.look_cases id
    · cases hlook.symm.trans hends
    · cases hlook.symm.trans hends
    · cases hlook.symm.trans hgoes
      have hrest := ih (h.goes hid hplain hleads)
      rwa [List.reverse_cons, List.append_assoc] at hrest

/-- The search from a fault answers for the whole path. -/
theorem answers (fs : Faults) (e : FaultId) : fs.Answers e (fs.searchNoted [] e).2 (fs.findCancellation e) := by
  have h := (follows_start fs e).answers
  rwa [List.reverse_nil, List.nil_append, ← findCancellation_eq] at h

/-- A path that closes without a deliberate stop has none, and then the search finds none. -/
theorem Answers.eq_some_iff {looked : List FaultId} {found : Option FaultId} (h : fs.Answers e looked found) :
    found = some c ↔ fs.FirstStop e c := by
  refine ⟨h.stop c, fun hfirst => ?_⟩
  cases found with
  | none =>
    obtain ⟨n, hunstopped, hcloses⟩ := h.missed rfl
    exact (hfirst.not_unstopped (hunstopped.always hcloses)).elim
  | some d => rw [(h.stop d rfl).unique hfirst]

end SteppedLogo.Faults

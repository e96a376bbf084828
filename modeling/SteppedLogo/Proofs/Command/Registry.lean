import Mathlib.Data.List.Induction
import Mathlib.Data.List.Nodup
import Mathlib.Data.String.Basic
import SteppedLogo.Command.Registry

namespace SteppedLogo

variable {H : Type}

namespace Registry

/-- The registry after a registration, also after one that is refused. -/
def after (r : Registry H) (c : Command H) : Registry H :=
  match (RegistryM.register c).run r with
  | .ok () r => r
  | .error _ r => r

/-- The registry after registrations, from an empty one. -/
def history (cs : List (Command H)) : Registry H := cs.foldl after {}

/-- The keys of commands, in order. -/
def taken (cs : List (Command H)) : List String := cs.flatMap Command.keys

/-- The commands accepted out of `cs`: each shares no key with one accepted before it. -/
def accepted (cs : List (Command H)) : List (Command H) :=
  cs.foldl (fun kept c => if c.keys.any (· ∈ taken kept) then kept else kept ++ [c]) []

/-- The registry holds the commands `cs`, and every key of theirs leads to its own command. -/
structure Holds (r : Registry H) (cs : List (Command H)) : Prop where
  commands : r.commands = cs
  apart : cs.Pairwise fun c d => c.keys.Disjoint d.keys
  names_sorted : r.names.Pairwise (· < ·)
  mem_names : ∀ key, key ∈ r.names ↔ ∃ c ∈ cs, key ∈ c.keys
  get?_eq_some : ∀ key c, r.get? key = some c ↔ c ∈ cs ∧ key ∈ c.keys
  get?_eq_none : ∀ key, r.get? key = none ↔ ∀ c ∈ cs, key ∉ c.keys
  bindings_nodup : (r.bindings.map Prod.fst).Nodup
  bindings_eq : ∀ key, r.bindings.lookup key = (r.get? key).map Command.handler

/-- A key is taken exactly if it is a name or an alias of one of the commands. -/
theorem mem_taken {cs : List (Command H)} {key : String} : key ∈ taken cs ↔ ∃ c ∈ cs, key ∈ c.keys :=
  List.mem_flatMap

/-- A further command is accepted if none of its keys is taken by those accepted before, and is left out otherwise. -/
theorem accepted_append_singleton (cs : List (Command H)) (c : Command H) :
    accepted (cs ++ [c]) =
      if c.keys.any (· ∈ taken (accepted cs)) then accepted cs else accepted cs ++ [c] := by
  simp [accepted]

/-- No two accepted commands share a key. -/
theorem accepted_pairwise (cs : List (Command H)) :
    (accepted cs).Pairwise fun c d => c.keys.Disjoint d.keys := by
  induction cs using List.reverseRecOn with
  | nil => simp [accepted]
  | append_singleton cs c ih =>
    rw [accepted_append_singleton]
    split
    case isTrue => exact ih
    case isFalse hfree =>
      refine List.pairwise_append.2 ⟨ih, List.pairwise_singleton _ _, fun d hd _ hc key hkey hkey' => ?_⟩
      rw [List.mem_singleton.1 hc] at hkey'
      exact hfree (List.any_eq_true.2 ⟨key, hkey', decide_eq_true (mem_taken.2 ⟨d, hd, hkey⟩)⟩)

/-- After a key is assigned to a command it gives that command, and every other key what it gave before. -/
theorem lookup_assign (key : String) (c : Command H) (owners : List (String × Command H)) (k : String) :
    (assign key c owners).lookup k = if k = key then some c else owners.lookup k := by
  fun_induction assign key c owners with
  | case1 =>
    by_cases hk : k = key
    · simp [hk]
    · simp [List.lookup_cons, hk, beq_false_of_ne hk]
  | case2 d rest =>
    by_cases hk : k = key
    · simp [hk]
    · simp [List.lookup_cons, hk, beq_false_of_ne hk]
  | case3 k' d rest hne ih =>
    by_cases hk : k = k'
    · simp [hk, hne]
    · simp [List.lookup_cons, beq_false_of_ne hk, ih]

/-- Assigning a key leaves the keys in their order, with a new one at the end. -/
theorem map_fst_assign (key : String) (c : Command H) (owners : List (String × Command H)) :
    (assign key c owners).map Prod.fst =
      if key ∈ owners.map Prod.fst then owners.map Prod.fst else owners.map Prod.fst ++ [key] := by
  fun_induction assign key c owners with
  | case1 => simp
  | case2 => simp
  | case3 k d rest hne ih =>
    rw [List.map_cons, ih]
    by_cases hkey : key ∈ rest.map Prod.fst <;> simp [hkey, Ne.symm hne]

/-- Assigning a key keeps the keys different. -/
theorem nodup_assign {key : String} {c : Command H} {owners : List (String × Command H)}
    (hnodup : (owners.map Prod.fst).Nodup) : ((assign key c owners).map Prod.fst).Nodup := by
  rw [map_fst_assign]
  split
  case isTrue => exact hnodup
  case isFalse hkey => exact List.concat_eq_append ▸ hnodup.concat hkey

/-- The owners after all keys of a list are given to one command. -/
def assignAll (keys : List String) (c : Command H) (owners : List (String × Command H)) :
    List (String × Command H) := keys.foldl (fun owners key => assign key c owners) owners

/-- After keys are assigned to a command each of them gives it, and every other key what it gave before. -/
theorem lookup_assignAll (keys : List String) (c : Command H) (owners : List (String × Command H)) (k : String) :
    (assignAll keys c owners).lookup k = if k ∈ keys then some c else owners.lookup k := by
  induction keys generalizing owners with
  | nil => rfl
  | cons key keys ih =>
    rw [assignAll, List.foldl_cons, ← assignAll, ih, lookup_assign]
    by_cases hk : k = key <;> simp [hk]

/-- Assigning several keys keeps the keys different. -/
theorem nodup_assignAll (keys : List String) (c : Command H) {owners : List (String × Command H)}
    (hnodup : (owners.map Prod.fst).Nodup) : ((assignAll keys c owners).map Prod.fst).Nodup := by
  induction keys generalizing owners with
  | nil => exact hnodup
  | cons key keys ih => exact ih (nodup_assign hnodup)

end Registry

namespace RegistryM

open Registry

/-- The check of a key fails exactly if the key is there, and leaves the registry as it is. -/
theorem ensureFree_run (key : String) (r : Registry H) :
    (ensureFree key).run r = if (r.get? key).isSome then .error (alreadyRegistered key) r else .ok () r := by
  change (if (r.get? key).isSome then throw (alreadyRegistered key) else pure () : RegistryM H Unit) r = _
  split <;> rfl

/-- The check of several keys fails at the first one that is there, and leaves the registry as it is. -/
theorem forM_ensureFree_run (keys : List String) (r : Registry H) :
    (keys.forM ensureFree).run r =
      match keys.find? fun key => (r.get? key).isSome with
      | some key => .error (alreadyRegistered key) r
      | none => .ok () r := by
  induction keys with
  | nil => rfl
  | cons key keys ih =>
    rw [List.forM_eq_forM, List.forM_cons, EStateM.run_bind, ensureFree_run, List.find?_cons]
    by_cases hkey : (r.get? key).isSome = true
    · rw [if_pos hkey, hkey]
    · rw [if_neg hkey, Bool.eq_false_iff.2 hkey]
      exact ih

/-- Giving several keys to a command never fails and assigns all of them. -/
theorem forM_giveKey_run (c : Command H) (keys : List String) (r : Registry H) :
    (keys.forM (giveKey c)).run r = .ok () { r with owners := assignAll keys c r.owners } := by
  induction keys generalizing r with
  | nil => rfl
  | cons key keys ih => exact ih _

/-- A registration stops at the first key that is taken, with the registry as it was; if none is, the
    command is added and owns all its keys. -/
theorem register_run (c : Command H) (r : Registry H) :
    (register c).run r =
      match c.keys.find? fun key => (r.get? key).isSome with
      | some key => .error (alreadyRegistered key) r
      | none => .ok () ⟨r.commands ++ [c], assignAll c.keys c r.owners⟩ := by
  rw [register, EStateM.run_bind, forM_ensureFree_run]
  cases c.keys.find? fun key => (r.get? key).isSome with
  | some key => rfl
  | none => exact forM_giveKey_run c c.aliases _

end RegistryM

namespace Registry

/-- The owners of a registry are in step with its commands. -/
structure Enrols (r : Registry H) (cs : List (Command H)) : Prop where
  commands : r.commands = cs
  nodup : (r.owners.map Prod.fst).Nodup
  owner : ∀ key c, r.get? key = some c ↔ c ∈ cs ∧ key ∈ c.keys

variable {r : Registry H} {cs : List (Command H)}

/-- A key is found in the registry of some commands exactly if one of them has it. -/
theorem Enrols.isSome_get? (h : r.Enrols cs) (key : String) : (r.get? key).isSome ↔ key ∈ taken cs := by
  rw [Option.isSome_iff_exists, mem_taken]
  exact exists_congr fun c => h.owner key c

theorem enrols_empty : ({} : Registry H).Enrols [] where
  commands := rfl
  nodup := List.nodup_nil
  owner key c := by simp [get?]

/-- A registration that succeeds keeps the owners in step. -/
theorem Enrols.add (h : r.Enrols cs) {c : Command H} (hfree : ∀ key ∈ c.keys, key ∉ taken cs) :
    Enrols ⟨r.commands ++ [c], assignAll c.keys c r.owners⟩ (cs ++ [c]) where
  commands := by rw [h.commands]
  nodup := nodup_assignAll _ _ h.nodup
  owner key d := by
    rw [get?, lookup_assignAll, List.mem_append, List.mem_singleton]
    split
    case isTrue hkey =>
      refine ⟨fun heq => ?_, ?_⟩
      · cases heq
        exact ⟨.inr rfl, hkey⟩
      · rintro ⟨hd | rfl, hkey'⟩
        · exact (hfree key hkey (mem_taken.2 ⟨d, hd, hkey'⟩)).elim
        · rfl
    case isFalse hkey =>
      refine (h.owner key d).trans ⟨fun ⟨hd, hkey'⟩ => ⟨.inl hd, hkey'⟩, ?_⟩
      rintro ⟨hd | rfl, hkey'⟩
      · exact ⟨hd, hkey'⟩
      · exact (hkey hkey').elim

/-- Registering a command one of whose keys is taken fails with the first such key, and leaves the registry as it is. -/
theorem Enrols.register_run_of_clash (h : r.Enrols cs) {c : Command H} (hclash : ∃ key ∈ c.keys, key ∈ taken cs) :
    ∃ key, c.keys.find? (· ∈ taken cs) = some key ∧
      (RegistryM.register c).run r = .error (alreadyRegistered key) r := by
  obtain ⟨key, hkey, htaken⟩ := hclash
  obtain ⟨first, hfirst⟩ := Option.isSome_iff_exists.1
    (List.find?_isSome (p := (· ∈ taken cs)).2 ⟨key, hkey, decide_eq_true htaken⟩)
  have hsame : (fun key => (r.get? key).isSome) = fun key => decide (key ∈ taken cs) :=
    funext fun key => Bool.eq_iff_iff.2 ((h.isSome_get? key).trans decide_eq_true_iff.symm)
  exact ⟨first, hfirst, by rw [RegistryM.register_run, hsame, hfirst]⟩

/-- Registering a command none of whose keys is taken adds it at the end and assigns all its keys. -/
theorem Enrols.register_run_of_free (h : r.Enrols cs) {c : Command H} (hfree : ∀ key ∈ c.keys, key ∉ taken cs) :
    (RegistryM.register c).run r = .ok () ⟨r.commands ++ [c], assignAll c.keys c r.owners⟩ := by
  have hnone : c.keys.find? (fun key => (r.get? key).isSome) = none :=
    List.find?_eq_none.2 fun key hkey hsome => hfree key hkey ((h.isSome_get? key).1 hsome)
  rw [RegistryM.register_run, hnone]

/-- A history with one more attempt is that attempt made in the registry of the others. -/
theorem history_append_singleton (cs : List (Command H)) (c : Command H) :
    history (cs ++ [c]) = (history cs).after c := by
  simp [history]

/-- The registry of a history of attempts holds exactly the commands that were accepted. -/
theorem enrols_history (cs : List (Command H)) : (history cs).Enrols (accepted cs) := by
  induction cs using List.reverseRecOn with
  | nil => exact enrols_empty
  | append_singleton cs c ih =>
    rw [history_append_singleton, accepted_append_singleton]
    split
    case isTrue hclash =>
      obtain ⟨key, hkey, htaken⟩ := List.any_eq_true.1 hclash
      obtain ⟨_, -, hrun⟩ := ih.register_run_of_clash ⟨key, hkey, of_decide_eq_true htaken⟩
      rwa [after, hrun]
    case isFalse hfree =>
      have hfree (key : String) (hkey : key ∈ c.keys) : key ∉ taken (accepted cs) := fun htaken =>
        hfree (List.any_eq_true.2 ⟨key, hkey, decide_eq_true htaken⟩)
      rw [after, ih.register_run_of_free hfree]
      exact ih.add hfree

/-- The names listed are the keys of the commands. -/
theorem Enrols.mem_names (h : r.Enrols cs) (key : String) : key ∈ r.names ↔ ∃ c ∈ cs, key ∈ c.keys := by
  rw [names, List.mem_mergeSort, ← mem_taken, ← h.isSome_get?, get?, List.lookup_isSome_iff]
  simp

/-- The names are listed in strictly rising order. -/
theorem Enrols.names_sorted (h : r.Enrols cs) : r.names.Pairwise (· < ·) := by
  have hsorted := @List.pairwise_mergeSort _ (fun a b : String => decide (a ≤ b))
    (by simpa using fun a b c => le_trans) (by simpa using le_total) (r.owners.map Prod.fst)
  have hnodup : r.names.Nodup := (List.mergeSort_perm _ _).nodup_iff.2 h.nodup
  exact (hsorted.and hnodup).imp fun ⟨hle, hne⟩ => lt_of_le_of_ne (of_decide_eq_true hle) hne

/-- The bindings give for each key the handler of the command that has it. -/
theorem lookup_bindings (owners : List (String × Command H)) (key : String) :
    (owners.map fun (key, c) => (key, c.handler)).lookup key = (owners.lookup key).map Command.handler := by
  induction owners with
  | nil => rfl
  | cons owner owners ih =>
    obtain ⟨k, c⟩ := owner
    by_cases hkey : key = k
    · simp [hkey]
    · simp [List.lookup_cons, beq_false_of_ne hkey, ih]

/-- A registry of commands that share no key lists, finds and binds just these. -/
theorem Enrols.holds (h : r.Enrols cs) (hapart : cs.Pairwise fun c d => c.keys.Disjoint d.keys) : r.Holds cs where
  commands := h.commands
  apart := hapart
  names_sorted := h.names_sorted
  mem_names := h.mem_names
  get?_eq_some := h.owner
  get?_eq_none key := by
    rw [← Option.not_isSome_iff_eq_none, h.isSome_get?, mem_taken]
    simp
  bindings_nodup := by simpa [bindings, Function.comp_def] using h.nodup
  bindings_eq := lookup_bindings r.owners

/-- Later registrations leave the owner of a key as it is. -/
theorem get?_history_append {key : String} {c : Command H} (later : List (Command H))
    (h : (history cs).get? key = some c) : (history (cs ++ later)).get? key = some c := by
  rw [(enrols_history _).owner] at h ⊢
  refine ⟨?_, h.2⟩
  induction later using List.reverseRecOn with
  | nil => simpa using h.1
  | append_singleton later d ih =>
    rw [← List.append_assoc, accepted_append_singleton]
    split
    · exact ih
    · exact List.mem_append_left _ ih

/-- The registry of a history lists, finds and binds just the commands that were accepted. -/
theorem holds_history (cs : List (Command H)) : (history cs).Holds (accepted cs) :=
  (enrols_history cs).holds (accepted_pairwise cs)

/-- One more registration, after any. Refused, it names the first key of the command that is taken
    and leaves the registry as it was; accepted, the command is the last one held. -/
structure Takes (cs : List (Command H)) (c : Command H) : Prop where
  refused : (∃ d ∈ accepted cs, ∃ key ∈ d.keys, key ∈ c.keys) →
    ∃ key, c.keys.find? (· ∈ taken (accepted cs)) = some key ∧
      (RegistryM.register c).run (history cs) = .error (alreadyRegistered key) (history cs)
  added : (∀ d ∈ accepted cs, ∀ key ∈ d.keys, key ∉ c.keys) →
    ∃ r, (RegistryM.register c).run (history cs) = .ok () r ∧ r.Holds (accepted cs ++ [c])

/-- An attempt to register a command is accepted or refused, and says so. -/
theorem takes (cs : List (Command H)) (c : Command H) : Takes cs c where
  refused := by
    rintro ⟨d, hd, key, hkey, hclash⟩
    exact (enrols_history cs).register_run_of_clash ⟨key, hclash, mem_taken.2 ⟨d, hd, hkey⟩⟩
  added hfree := by
    have hfree (key : String) (hkey : key ∈ c.keys) : key ∉ taken (accepted cs) := fun htaken => by
      obtain ⟨d, hd, hkey'⟩ := mem_taken.1 htaken
      exact hfree d hd key hkey' hkey
    refine ⟨_, (enrols_history cs).register_run_of_free hfree, ((enrols_history cs).add hfree).holds ?_⟩
    have hpairwise := accepted_pairwise (cs ++ [c])
    rwa [accepted_append_singleton, if_neg] at hpairwise
    simpa using hfree

/-- After any registrations the registry holds the commands accepted, each under its own keys; what
    one more registration does is told by these keys; and no key changes its owner. -/
theorem history_consistent (cs : List (Command H)) :
    (history cs).Holds (accepted cs) ∧ (∀ c, Takes cs c) ∧
      ∀ later key c, (history cs).get? key = some c → (history (cs ++ later)).get? key = some c :=
  ⟨holds_history cs, takes cs, fun later _ _ => get?_history_append later⟩

end Registry

end SteppedLogo

import SteppedLogo.Proofs.Value.Form
import SteppedLogo.Value.Dictionary

namespace SteppedLogo

namespace HashKey

mutual

theorem agrees_self : (key : HashKey) → key.agrees key = true
  | .nothing => rfl
  | .number _ | .notANumber _ | .text _ | .reference _ => by simp [agrees]
  | .list keys => agreesAll_self keys

theorem agreesAll_self : (keys : List HashKey) → agreesAll keys keys = true
  | [] => rfl
  | key :: keys => by rw [agreesAll, agrees_self key, agreesAll_self keys, Bool.true_and]

end

end HashKey

namespace LogoList

/-- The chain of cells ends in the empty list. -/
def IsProper : LogoList → Prop
  | empty => True
  | cons _ _ tail => tail.IsProper
  | bare _ => False

theorem IsPlain.isProper {l : LogoList} (h : l.IsPlain) : l.IsProper :=
  (plain_induction (P := fun _ => True) (Q := IsProper) (fun _ _ _ => trivial) (fun _ _ => trivial) trivial
    fun _ _ _ _ htail => htail).2 l h

theorem isProper_ofList (fresh : Identity) (xs : List Value) : (ofList fresh xs).IsProper := by
  induction xs generalizing fresh with
  | nil => trivial
  | cons x xs ih => exact ih (fresh + 1)

/-- Lists are equal when they have as many items, each equal to the one in its place. -/
theorem equal_iff_items : (a b : LogoList) → a.IsProper → b.IsProper →
    (a.equal b = true ↔ a.length = b.length ∧ ∀ p ∈ a.items.zip b.items, p.1.equal p.2 = true)
  | empty, empty, _, _ => by simp [equal, items]
  | empty, cons .., _, _ => by simp [equal, items, length]
  | cons .., empty, _, _ => by simp [equal, items, length]
  | bare _, _, h, _ => h.elim
  | _, bare _, _, h => h.elim
  | cons _ head tail, cons _ head' tail', h, h' => by
    rw [equal, Bool.and_eq_true, equal_iff_items tail tail' h h']
    simp only [length, items, List.length_cons, Nat.add_right_cancel_iff, List.zip_cons_cons, List.forall_mem_cons]
    exact and_left_comm

end LogoList

namespace Value

theorem identified_equal_left (id : Identity) (x y : Value) : (x.identified id).equal y = x.equal y := by
  unfold identified
  split
  · rfl
  · split <;> cases y <;> rfl

theorem identified_equal_right (id : Identity) (x y : Value) : x.equal (y.identified id) = x.equal y := by
  unfold identified
  split
  · rfl
  · split <;> cases x <;> rfl

/-- The lists of the items of two values are equal when the items are, one by one. -/
theorem toList_equal (fresh fresh' : Identity) {u v : Value} {xs ys : List Value} (hu : u.items? = some xs)
    (hv : v.items? = some ys) : ∃ a b, u.toList fresh = .ok a ∧ v.toList fresh' = .ok b ∧
      (a.equal b = true ↔ xs.length = ys.length ∧ ∀ p ∈ xs.zip ys, p.1.equal p.2 = true) := by
  have htoList {w : Value} {zs : List Value} (fresh : Identity) (hw : w.items? = some zs) :
      w.toList fresh = .ok (.ofList fresh (zs.mapIdx fun i x => x.identified (fresh + i))) := by
    simp [toList, items, hw, Except.map]
  refine ⟨_, _, htoList fresh hu, htoList fresh' hv, ?_⟩
  rw [LogoList.equal_iff_items _ _ (LogoList.isProper_ofList _ _) (LogoList.isProper_ofList _ _)]
  simp [LogoList.length, List.forall_mem_iff_getElem, identified_equal_left, identified_equal_right]

end Value

theorem Value.equal_list (a b : LogoList) : (Value.list a).equal (.list b) = a.equal b := rfl

namespace LogoList

/-- Fit to be a key: a plain list in which not-a-number does not occur. -/
structure IsKey (l : LogoList) : Prop where
  plain : l.IsPlain
  noNaN : ¬ l.HasNaN

/-- One identity names one object. -/
def Coherent (lists : List LogoList) : Prop := ∀ a ∈ lists, ∀ b ∈ lists, a.same b = true → a = b

theorem IsKey.equal_self {l : LogoList} (h : l.IsKey) : l.equal l = true := (equal_self_iff h.plain).2 h.noNaN

end LogoList

namespace Dictionary

variable {α : Type}

/-- Gives keys values, one after another. -/
def fill? (pairs : List (LogoList × α)) : Option (Dictionary α) :=
  pairs.foldlM (fun d p => d.insert? (.list p.1) p.2) {}

/-- The value that was given last to a key equal to the given one. -/
def lastUnder (key : LogoList) (pairs : List (LogoList × α)) : Option α :=
  (pairs.filter (·.1.equal key)).getLast?.map Prod.snd

/-- What is inserted goes to the first entry that holds the key, or behind all. -/
theorem insertInto_cases (key : Value) (hash : HashKey) (val : α) (es : List (Entry α)) :
    ((∀ e ∈ es, holds key hash e = false) ∧ insertInto key hash val es = es ++ [⟨key, hash, val⟩]) ∨
    ∃ before e after, es = before ++ e :: after ∧ holds key hash e = true ∧
      insertInto key hash val es = before ++ { e with val } :: after := by
  induction es with
  | nil => exact .inl ⟨nofun, rfl⟩
  | cons e es ih =>
    rw [insertInto]
    cases he : holds key hash e with
    | true => exact .inr ⟨[], e, es, rfl, he, rfl⟩
    | false =>
      rw [if_neg (by simp)]
      obtain ⟨hnone, heq⟩ | ⟨before, e', after, rfl, he', heq⟩ := ih
      · exact .inl ⟨List.forall_mem_cons.2 ⟨he, hnone⟩, by rw [heq]; rfl⟩
      · exact .inr ⟨e :: before, e', after, rfl, he', by rw [heq]; rfl⟩

/-- An entry under one of the keys that values were given to, with the hash key of that, and with the value that was given
    last to a key equal to it. -/
def IsEntryOf (pairs : List (LogoList × α)) (e : Entry α) : Prop :=
  ∃ key ∈ pairs.map Prod.fst, e.key = .list key ∧ e.key.hashKey? = some e.hash ∧ lastUnder key pairs = some e.val

/-- A dictionary to whose keys values were given: there is one entry for all keys that are equal. -/
structure Keeps (pairs : List (LogoList × α)) (d : Dictionary α) : Prop where
  entry : ∀ e ∈ d.entries, IsEntryOf pairs e
  distinct : d.entries.Pairwise fun e e' => e.key.equal e'.key = false
  present : ∀ key ∈ pairs.map Prod.fst, ∃ e ∈ d.entries, e.key.equal (.list key) = true

section

variable {pairs : List (LogoList × α)} {key k : LogoList} {val : α} {hash : HashKey} {e : Entry α} {d : Dictionary α}

theorem lastUnder_snoc : lastUnder k (pairs ++ [(key, val)]) = if key.equal k then some val else lastUnder k pairs := by
  unfold lastUnder
  rw [List.filter_append]
  cases h : key.equal k <;> simp [h]

/-- Under keys that are equal, the same value was given last. -/
theorem lastUnder_congr (hkeys : ∀ k ∈ pairs.map Prod.fst, k.IsKey) (hk : k.IsKey) (hkey : key.IsKey)
    (h : k.equal key = true) :
    lastUnder k pairs = lastUnder key pairs := by
  have hclass : ∀ p ∈ pairs, p.1.equal k = p.1.equal key := fun p hp => by
    have hp := (hkeys p.1 (List.mem_map_of_mem hp)).plain
    rw [Bool.eq_iff_iff]
    exact ⟨fun hpk => LogoList.equal_trans hp hk.plain hkey.plain hpk h,
      fun hpkey => LogoList.equal_trans hp hkey.plain hk.plain hpkey ((LogoList.equal_comm hkey.plain hk.plain).trans h)⟩
  rw [lastUnder, lastUnder, List.filter_congr hclass]

/-- An entry holds a key exactly when its own key is equal to it, as keys that are one object are equal, and equal keys
    have one hash key. -/
theorem holds_eq_equal (hk : k.IsKey) (hkey : key.IsKey) (hsame : k.same key = true → k = key) (he : e.key = .list k)
    (hehash : e.key.hashKey? = some e.hash) (hhash : (Value.list key).hashKey? = some hash) :
    holds (.list key) hash e = k.equal key := by
  unfold holds
  rw [he]
  change (k.same key || (e.hash.agrees hash && k.equal key)) = k.equal key
  cases hequal : k.equal key with
  | true =>
    obtain ⟨h, hhk, hhkey⟩ := LogoList.hashKey_eq_of_equal hk.plain hkey.plain hequal
    rw [he, hhk] at hehash
    cases hehash
    rw [hhkey] at hhash
    cases hhash
    rw [HashKey.agrees_self, Bool.and_true, Bool.or_true]
  | false =>
    rw [Bool.and_false, Bool.or_false]
    by_contra hone
    obtain rfl := hsame (by simpa using hone)
    rw [hk.equal_self] at hequal
    cases hequal

theorem exists_hash (hkey : key.IsKey) : ∃ hash, (Value.list key).hashKey? = some hash := by
  obtain ⟨hash, hhash, -⟩ := LogoList.hashKey_eq_of_equal hkey.plain hkey.plain hkey.equal_self
  exact ⟨hash, hhash⟩

theorem lastUnder_eq_none (h : ∀ k ∈ pairs.map Prod.fst, k.equal key = false) : lastUnder key pairs = none := by
  have hnone : pairs.filter (·.1.equal key) = [] :=
    List.filter_eq_nil_iff.2 fun p hp => by simp [h p.1 (List.mem_map_of_mem hp)]
  rw [lastUnder, hnone]
  rfl

namespace Keeps

theorem holds_eq (h : d.Keeps pairs) (hkeys : ∀ k ∈ pairs.map Prod.fst, k.IsKey) (hkey : key.IsKey)
    (hsame : ∀ k ∈ pairs.map Prod.fst, k.same key = true → k = key) (hhash : (Value.list key).hashKey? = some hash) :
    ∀ e ∈ d.entries, holds (.list key) hash e = e.key.equal (.list key) := fun e he => by
  obtain ⟨k, hk, hek, hehash, -⟩ := h.entry e he
  rw [holds_eq_equal (hkeys k hk) hkey (hsame k hk) hek hehash hhash, hek]
  rfl

/-- A value is found again under every key equal to the one it was given to. -/
theorem get_eq (h : d.Keeps pairs) (hkeys : ∀ k ∈ pairs.map Prod.fst, k.IsKey) (hkey : key.IsKey)
    (hsame : ∀ k ∈ pairs.map Prod.fst, k.same key = true → k = key) :
    d.get? (.list key) = some (lastUnder key pairs) := by
  obtain ⟨hash, hhash⟩ := exists_hash hkey
  have hholds := h.holds_eq hkeys hkey hsame hhash
  rw [get?, hhash]
  refine congrArg some ?_
  dsimp only
  cases hfind : d.entries.find? (holds (.list key) hash) with
  | some e =>
    have he := List.mem_of_find?_eq_some hfind
    obtain ⟨k, hk, hek, -, hlast⟩ := h.entry e he
    have hequal : k.equal key = true := by
      have := (hholds e he).symm.trans (List.find?_some hfind)
      rwa [hek] at this
    exact hlast.symm.trans (lastUnder_congr hkeys (hkeys k hk) hkey hequal)
  | none =>
    -- a value given to an equal key would be in an entry, under a key that is equal to both
    refine (lastUnder_eq_none fun k hk => ?_).symm
    obtain ⟨e, he, hek⟩ := h.present k hk
    obtain ⟨k', hk', hek', -⟩ := h.entry e he
    by_contra hequal
    rw [hek'] at hek
    have hkk : k'.equal key = true := LogoList.equal_trans (hkeys k' hk').plain (hkeys k hk).plain hkey.plain hek
      (by simpa using hequal)
    have hnot := List.find?_eq_none.1 hfind e he
    rw [hholds e he, hek'] at hnot
    exact hnot hkk

/-- Only one entry is under a key equal to the given one. -/
theorem unique (h : d.Keeps pairs) (hkeys : ∀ k ∈ pairs.map Prod.fst, k.IsKey) (hkey : key.IsKey) {e' : Entry α}
    (he : e ∈ d.entries) (he' : e' ∈ d.entries) (hheld : e.key.equal (.list key) = true)
    (hapart : e.key.equal e'.key = false ∨ e'.key.equal e.key = false) : e'.key.equal (.list key) = false := by
  obtain ⟨k, hk, hek, -⟩ := h.entry e he
  obtain ⟨k', hk', hek', -⟩ := h.entry e' he'
  rw [hek, hek'] at hapart
  rw [hek] at hheld
  rw [hek']
  simp only [Value.equal_list] at hapart hheld ⊢
  have hk := (hkeys k hk).plain
  have hk' := (hkeys k' hk').plain
  rw [LogoList.equal_comm hk' hk, or_self] at hapart
  by_contra hequal
  have hsame : k.equal k' = true := LogoList.equal_trans hk hkey.plain hk' hheld
    ((LogoList.equal_comm hkey.plain hk').trans (by simpa using hequal))
  rw [hsame] at hapart
  cases hapart

/-- An entry under another key stays what it is. -/
theorem entry_snoc (h : d.Keeps pairs) (hkeys : ∀ k ∈ pairs.map Prod.fst, k.IsKey) (hkey : key.IsKey)
    (he : e ∈ d.entries) (hother : e.key.equal (.list key) = false) : IsEntryOf (pairs ++ [(key, val)]) e := by
  obtain ⟨k, hk, hek, hehash, hlast⟩ := h.entry e he
  rw [hek, Value.equal_list, LogoList.equal_comm (hkeys k hk).plain hkey.plain] at hother
  refine ⟨k, by rw [List.map_append]; exact List.mem_append_left _ hk, hek, hehash, ?_⟩
  rw [lastUnder_snoc, hother]
  exact hlast

/-- Another value is given to a key that no entry holds. -/
theorem append (h : d.Keeps pairs) (hkeys : ∀ k ∈ pairs.map Prod.fst, k.IsKey) (hkey : key.IsKey)
    (hhash : (Value.list key).hashKey? = some hash) (hnew : ∀ e ∈ d.entries, e.key.equal (.list key) = false) :
    Keeps (pairs ++ [(key, val)]) ⟨d.entries ++ [⟨.list key, hash, val⟩]⟩ where
  entry := by
    intro e he
    rcases List.mem_append.1 he with he | he
    · exact h.entry_snoc hkeys hkey he (hnew e he)
    · cases List.mem_singleton.1 he
      refine ⟨key, by simp, rfl, hhash, ?_⟩
      rw [lastUnder_snoc, hkey.equal_self]
      rfl
  distinct := by
    refine List.pairwise_append.2 ⟨h.distinct, List.pairwise_singleton _ _, fun e he e' he' => ?_⟩
    cases List.mem_singleton.1 he'
    exact hnew e he
  present := by
    intro k hk
    rw [List.map_append] at hk
    rcases List.mem_append.1 hk with hk | hk
    · obtain ⟨e, he, hek⟩ := h.present k hk
      exact ⟨e, List.mem_append_left _ he, hek⟩
    · cases List.mem_singleton.1 hk
      exact ⟨⟨.list key, hash, val⟩, by simp, hkey.equal_self⟩

/-- Another value is given to a key that an entry holds. -/
theorem update {before after : List (Entry α)} (h : d.Keeps pairs) (hkeys : ∀ k ∈ pairs.map Prod.fst, k.IsKey)
    (hkey : key.IsKey) (hentries : d.entries = before ++ e :: after) (hheld : e.key.equal (.list key) = true) :
    Keeps (pairs ++ [(key, val)]) ⟨before ++ { e with val } :: after⟩ := by
  have he : e ∈ d.entries := by rw [hentries]; simp
  have hdistinct := h.distinct
  rw [hentries, List.pairwise_append, List.pairwise_cons] at hdistinct
  obtain ⟨hbefore, ⟨hafter, hrest⟩, hacross⟩ := hdistinct
  refine ⟨fun e' he' => ?_, List.pairwise_append.2 ⟨hbefore, List.pairwise_cons.2 ⟨hafter, hrest⟩, fun e' he' => ?_⟩,
    fun k hk => ?_⟩
  · rcases List.mem_append.1 he' with he' | he'
    · have hmem : e' ∈ d.entries := by rw [hentries]; exact List.mem_append_left _ he'
      exact h.entry_snoc hkeys hkey hmem
        (h.unique hkeys hkey he hmem hheld (.inr (hacross e' he' e (List.mem_cons_self ..))))
    · rcases List.mem_cons.1 he' with rfl | he'
      · obtain ⟨k, hk, hek, hehash, -⟩ := h.entry e he
        rw [hek, Value.equal_list, LogoList.equal_comm (hkeys k hk).plain hkey.plain] at hheld
        refine ⟨k, by rw [List.map_append]; exact List.mem_append_left _ hk, hek, hehash, ?_⟩
        rw [lastUnder_snoc, hheld]
        rfl
      · have hmem : e' ∈ d.entries := by rw [hentries]; exact List.mem_append_right _ (List.mem_cons_of_mem _ he')
        exact h.entry_snoc hkeys hkey hmem (h.unique hkeys hkey he hmem hheld (.inl (hafter e' he')))
  · exact List.forall_mem_cons.2 (List.forall_mem_cons.1 (hacross e' he'))
  · -- the keys of the entries are those of before
    have hkeysEq : (before ++ { e with val } :: after).map Entry.key = d.entries.map Entry.key := by
      rw [hentries, List.map_append, List.map_append]
      rfl
    have hold : ∃ e' ∈ d.entries, e'.key.equal (.list k) = true := by
      rw [List.map_append] at hk
      rcases List.mem_append.1 hk with hk | hk
      · exact h.present k hk
      · cases List.mem_singleton.1 hk
        exact ⟨e, he, hheld⟩
    obtain ⟨e', he', hek⟩ := hold
    obtain ⟨e'', he'', heq⟩ := List.mem_map.1 (hkeysEq ▸ List.mem_map_of_mem he')
    exact ⟨e'', he'', heq ▸ hek⟩

/-- One more value is given. -/
theorem insert (val : α) (h : d.Keeps pairs) (hkeys : ∀ k ∈ pairs.map Prod.fst, k.IsKey) (hkey : key.IsKey)
    (hsame : ∀ k ∈ pairs.map Prod.fst, k.same key = true → k = key) :
    ∃ d', d.insert? (.list key) val = some d' ∧ d'.Keeps (pairs ++ [(key, val)]) := by
  obtain ⟨hash, hhash⟩ := exists_hash hkey
  have hholds := h.holds_eq hkeys hkey hsame hhash
  refine ⟨⟨insertInto (.list key) hash val d.entries⟩, by rw [insert?, hhash]; rfl, ?_⟩
  obtain ⟨hnone, heq⟩ | ⟨before, e, after, hentries, he, heq⟩ := insertInto_cases (.list key) hash val d.entries
  · rw [heq]
    exact h.append hkeys hkey hhash fun e he => (hholds e he).symm.trans (hnone e he)
  · rw [heq]
    exact h.update hkeys hkey hentries ((hholds e (by rw [hentries]; simp)).symm.trans he)

end Keeps

theorem exists_fill (hkeys : ∀ k ∈ pairs.map Prod.fst, k.IsKey) (hcoherent : LogoList.Coherent (pairs.map Prod.fst)) :
    ∃ d, fill? pairs = some d ∧ d.Keeps pairs := by
  induction pairs using List.reverseRecOn with
  | nil => exact ⟨{}, rfl, nofun, .nil, nofun⟩
  | append_singleton pairs p ih =>
    obtain ⟨key, val⟩ := p
    have hsub : ∀ k ∈ pairs.map Prod.fst, k ∈ (pairs ++ [(key, val)]).map Prod.fst := fun k hk => by
      rw [List.map_append]
      exact List.mem_append_left _ hk
    have hmem : key ∈ (pairs ++ [(key, val)]).map Prod.fst := by simp
    obtain ⟨d, hfill, hkeeps⟩ := ih (fun k hk => hkeys k (hsub k hk)) fun a ha b hb => hcoherent a (hsub a ha) b (hsub b hb)
    obtain ⟨d', hinsert, hkeeps'⟩ := hkeeps.insert val (fun k hk => hkeys k (hsub k hk)) (hkeys key hmem)
      fun k hk => hcoherent k (hsub k hk) key hmem
    refine ⟨d', ?_, hkeeps'⟩
    rw [fill?, List.foldlM_append]
    rw [fill?] at hfill
    rw [hfill]
    simpa using hinsert

end

end Dictionary

namespace LogoList

/-- Equality of lists is fit for keys: it is equality item by item, symmetric, transitive and but for not-a-number
    reflexive, and goes with the hash keys. So a dictionary of lists in which not-a-number does not occur has one entry for
    all equal keys, with the value that was given last, and finds it under each of them. Lists that are made of the items
    of values, of whatever kind, are equal when the items are. -/
theorem equality_fit_for_keys :
    (∀ a b : LogoList, a.IsPlain → b.IsPlain →
      (a.equal b = true ↔ a.length = b.length ∧ ∀ p ∈ a.items.zip b.items, p.1.equal p.2 = true) ∧
      a.equal b = b.equal a ∧
      (∀ c : LogoList, c.IsPlain → a.equal b = true → b.equal c = true → a.equal c = true) ∧
      (a.equal a = true ↔ ¬ a.HasNaN) ∧
      (a.equal b = true → ∃ key, (Value.list a).hashKey? = some key ∧ (Value.list b).hashKey? = some key)) ∧
    (∀ (α : Type) (pairs : List (LogoList × α)), (∀ k ∈ pairs.map Prod.fst, k.IsKey) → Coherent (pairs.map Prod.fst) →
      ∃ d, Dictionary.fill? pairs = some d ∧ d.Keeps pairs ∧
        ∀ key : LogoList, key.IsKey → (∀ k ∈ pairs.map Prod.fst, k.same key = true → k = key) →
          d.get? (.list key) = some (Dictionary.lastUnder key pairs)) ∧
    ∀ (fresh fresh' : Identity) (u v : Value) (xs ys : List Value), u.items? = some xs → v.items? = some ys →
      ∃ a b, u.toList fresh = .ok a ∧ v.toList fresh' = .ok b ∧
        (a.equal b = true ↔ xs.length = ys.length ∧ ∀ p ∈ xs.zip ys, p.1.equal p.2 = true) := by
  refine ⟨fun a b ha hb => ⟨equal_iff_items a b ha.isProper hb.isProper, equal_comm ha hb,
    fun c hc => equal_trans ha hb hc, equal_self_iff ha, hashKey_eq_of_equal ha hb⟩, fun α pairs hkeys hcoherent => ?_,
    fun fresh fresh' u v xs ys hu hv => Value.toList_equal fresh fresh' hu hv⟩
  obtain ⟨d, hfill, hkeeps⟩ := Dictionary.exists_fill hkeys hcoherent
  exact ⟨d, hfill, hkeeps, fun key hkey hsame => hkeeps.get_eq hkeys hkey hsame⟩

/-- A list of the number one and a list of the truth value are one key. -/
theorem one_and_true_are_one_key : ∃ d : Dictionary String,
    Dictionary.fill? [(cons 1 (.int 1) empty, "first"), (cons 2 (.bool true) empty, "second")] = some d ∧
      d.get? (.list (cons 3 (.int 1) empty)) = some (some "second") := by
  have hone : (cons 1 (.int 1) empty).IsKey := ⟨⟨trivial, trivial⟩, by simp [HasNaN, Value.HasNaN]⟩
  have htrue : (cons 2 (.bool true) empty).IsKey := ⟨⟨trivial, trivial⟩, by simp [HasNaN, Value.HasNaN]⟩
  have hother : (cons 3 (.int 1) empty).IsKey := ⟨⟨trivial, trivial⟩, by simp [HasNaN, Value.HasNaN]⟩
  obtain ⟨d, hfill, -, hget⟩ := equality_fit_for_keys.2.1 String
    [(cons 1 (.int 1) empty, "first"), (cons 2 (.bool true) empty, "second")] (by simp [hone, htrue])
    (by simp [Coherent, same])
  exact ⟨d, hfill, hget _ hother (by simp [same])⟩

end LogoList

end SteppedLogo

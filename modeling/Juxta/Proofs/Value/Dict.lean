/-
# Dictionaries as maps with an order

A dictionary has two sides, the list of its keys and the value of each key, and
setting a key acts on each side by itself: a new key goes to the end of the list,
and only the value of that key changes. So after any number of settings the keys
stand in the order in which they were set first, each with the value that was set
last. Merging sets the entries of one dictionary in another. No dictionary that
comes about in this way repeats a key; such a dictionary is determined by its two
sides, and from them follow the laws of merging.
-/

import Juxta.Eval.Operation
import Mathlib.Data.Finset.Card

namespace Juxta.Dict

variable {α : Type}

@[simp]
theorem keys_empty : (empty : Dict α).keys = [] := rfl

@[simp]
theorem get?_empty (key : Bytes) : (empty : Dict α).get? key = none := rfl

theorem nodup_keys_empty : (empty : Dict α).keys.Nodup := List.nodup_nil

theorem size_eq_length_keys (dict : Dict α) : dict.size = dict.keys.length :=
  (List.length_map Prod.fst).symm

theorem lookup_cons_eq_ite (entry : Bytes × α) (rest : List (Bytes × α)) (key : Bytes) :
    (entry :: rest).lookup key = if key = entry.1 then some entry.2 else rest.lookup key := by
  obtain ⟨name, value⟩ := entry
  by_cases asked : key = name
  · rw [if_pos asked, asked, List.lookup_cons_self]
  · rw [if_neg asked, List.lookup_cons, beq_false_of_ne asked]

theorem forall_bne_iff_not_mem {entries : List (Bytes × α)} {key : Bytes} :
    (∀ entry ∈ entries, key != entry.1) ↔ key ∉ entries.map Prod.fst := by
  constructor
  · intro each mem
    obtain ⟨entry, inside, same⟩ := List.mem_map.mp mem
    exact bne_iff_ne.mp (each entry inside) same.symm
  · intro absent entry inside
    rw [bne_iff_ne]
    rintro rfl
    exact absent (List.mem_map_of_mem inside)

theorem isSome_get? {dict : Dict α} {key : Bytes} :
    (dict.get? key).isSome ↔ key ∈ dict.keys := by
  rw [Option.isSome_iff_ne_none, Ne, get?, List.lookup_eq_none_iff, forall_bne_iff_not_mem,
    not_not, keys]

section Set

variable {dict : Dict α} {key : Bytes} (value : α)

/-- A key that is present keeps its place. -/
theorem keys_set_of_mem (present : key ∈ dict.keys) : (dict.set key value).keys = dict.keys := by
  obtain ⟨entries⟩ := dict
  simp only [keys, set] at present ⊢
  induction entries with
  | nil => cases present
  | cons entry rest ih =>
      rw [setEntry]
      by_cases found : entry.1 = key
      · rw [if_pos found, List.map_cons, List.map_cons, found]
      · have later : key ∈ rest.map Prod.fst := by
          rw [List.map_cons, List.mem_cons] at present
          exact present.resolve_left (Ne.symm found)
        rw [if_neg found, List.map_cons, List.map_cons, ih later]

/-- A new key goes to the end. -/
theorem keys_set_of_not_mem (absent : key ∉ dict.keys) :
    (dict.set key value).keys = dict.keys ++ [key] := by
  obtain ⟨entries⟩ := dict
  simp only [keys, set] at absent ⊢
  induction entries with
  | nil => rfl
  | cons entry rest ih =>
      rw [List.map_cons, List.mem_cons, not_or] at absent
      rw [setEntry, if_neg (Ne.symm absent.1), List.map_cons, List.map_cons, ih absent.2,
        List.cons_append]

theorem mem_keys_set {other : Bytes} :
    other ∈ (dict.set key value).keys ↔ other ∈ dict.keys ∨ other = key := by
  by_cases present : key ∈ dict.keys
  · rw [keys_set_of_mem value present]
    constructor
    · exact .inl
    · rintro (old | rfl)
      · exact old
      · exact present
  · rw [keys_set_of_not_mem value present, List.mem_append, List.mem_singleton]

theorem nodup_keys_set (distinct : dict.keys.Nodup) : (dict.set key value).keys.Nodup := by
  by_cases present : key ∈ dict.keys
  · rwa [keys_set_of_mem value present]
  · rw [keys_set_of_not_mem value present, ← List.concat_eq_append]
    exact distinct.concat present

/-- Only the value of the key that is set changes. -/
theorem get?_set (dict : Dict α) (key : Bytes) (value : α) (other : Bytes) :
    (dict.set key value).get? other = if other = key then some value else dict.get? other := by
  obtain ⟨entries⟩ := dict
  simp only [get?, set]
  induction entries with
  | nil => rw [setEntry, lookup_cons_eq_ite]
  | cons entry rest ih =>
      rw [setEntry]
      by_cases found : entry.1 = key
      · rw [if_pos found, lookup_cons_eq_ite, lookup_cons_eq_ite, found]
        split <;> rfl
      · rw [if_neg found, lookup_cons_eq_ite, lookup_cons_eq_ite, ih]
        by_cases asked : other = entry.1
        · rw [if_pos asked, if_pos asked, if_neg (asked ▸ found)]
        · rw [if_neg asked, if_neg asked]

end Set

/-- Sets several keys, one after the other. -/
def setAll (dict : Dict α) (settings : List (Bytes × α)) : Dict α :=
  settings.foldl (fun dict entry => dict.set entry.1 entry.2) dict

theorem ofList_eq_setAll (settings : List (Bytes × α)) : ofList settings = empty.setAll settings :=
  rfl

theorem merge_eq_setAll (first second : Dict α) :
    first.merge second = first.setAll second.entries := rfl

section SetAll

variable {dict : Dict α} {settings : List (Bytes × α)}

theorem setAll_concat (dict : Dict α) (settings : List (Bytes × α)) (entry : Bytes × α) :
    dict.setAll (settings ++ [entry]) = (dict.setAll settings).set entry.1 entry.2 :=
  List.foldl_concat ..

theorem nodup_keys_setAll (distinct : dict.keys.Nodup) (settings : List (Bytes × α)) :
    (dict.setAll settings).keys.Nodup := by
  induction settings generalizing dict with
  | nil => exact distinct
  | cons entry rest ih => exact ih (nodup_keys_set entry.2 distinct)

theorem mem_keys_setAll {key : Bytes} :
    key ∈ (dict.setAll settings).keys ↔ key ∈ dict.keys ∨ key ∈ settings.map Prod.fst := by
  induction settings generalizing dict with
  | nil => simp [setAll]
  | cons entry rest ih =>
      rw [setAll, List.foldl_cons, ← setAll, ih, mem_keys_set, List.map_cons, List.mem_cons,
        or_assoc]

/-- The last setting of a key counts, and without any the value from before. -/
theorem get?_setAll (dict : Dict α) (settings : List (Bytes × α)) (key : Bytes) :
    (dict.setAll settings).get? key = (settings.reverse.lookup key).or (dict.get? key) := by
  induction settings generalizing dict with
  | nil => rfl
  | cons entry rest ih =>
      rw [setAll, List.foldl_cons, ← setAll, ih, get?_set, List.reverse_cons, List.lookup_append,
        lookup_cons_eq_ite, Option.or_assoc]
      split <;> rfl

/-- Settings of distinct keys add those of the keys that are new, in their order. -/
theorem keys_setAll_of_nodup (dict : Dict α) (distinct : (settings.map Prod.fst).Nodup) :
    (dict.setAll settings).keys =
      dict.keys ++ (settings.map Prod.fst).filter (· ∉ dict.keys) := by
  induction settings generalizing dict with
  | nil => simp [setAll]
  | cons entry rest ih =>
      rw [List.map_cons, List.nodup_cons] at distinct
      rw [setAll, List.foldl_cons, ← setAll, ih _ distinct.2, List.map_cons]
      by_cases present : entry.1 ∈ dict.keys
      · rw [keys_set_of_mem entry.2 present, List.filter_cons_of_neg (by simpa using present)]
      · -- The new key does not come again, so it is no matter that it is present now.
        have others : (rest.map Prod.fst).filter (· ∉ dict.keys ++ [entry.1]) =
            (rest.map Prod.fst).filter (· ∉ dict.keys) := by
          apply List.filter_congr
          intro key later
          have other : key ≠ entry.1 := by
            rintro rfl
            exact distinct.1 later
          simp [other]
        rw [keys_set_of_not_mem entry.2 present, others,
          List.filter_cons_of_pos (by simpa using present), List.append_assoc,
          List.singleton_append]

end SetAll

theorem nodup_keys_ofList (settings : List (Bytes × α)) : (ofList settings).keys.Nodup :=
  nodup_keys_setAll nodup_keys_empty settings

theorem mem_keys_ofList {settings : List (Bytes × α)} {key : Bytes} :
    key ∈ (ofList settings).keys ↔ key ∈ settings.map Prod.fst := by
  rw [ofList_eq_setAll, mem_keys_setAll, keys_empty, List.mem_nil_iff, false_or]

theorem get?_ofList (settings : List (Bytes × α)) (key : Bytes) :
    (ofList settings).get? key = settings.reverse.lookup key := by
  rw [ofList_eq_setAll, get?_setAll, get?_empty, Option.or_none]

theorem get?_ofList_eq_some_iff {settings : List (Bytes × α)} {key : Bytes} {value : α} :
    (ofList settings).get? key = some value ↔ ∃ before after,
      settings = before ++ (key, value) :: after ∧ key ∉ after.map Prod.fst := by
  rw [get?_ofList, List.lookup_eq_some_iff]
  constructor
  · rintro ⟨after, before, reversed, others⟩
    refine ⟨before.reverse, after.reverse, ?_, ?_⟩
    · rw [← List.reverse_reverse settings, reversed]
      simp
    · rw [List.map_reverse, List.mem_reverse]
      exact forall_bne_iff_not_mem.mp others
  · rintro ⟨before, after, rfl, last⟩
    refine ⟨after.reverse, before.reverse, by simp, ?_⟩
    rw [forall_bne_iff_not_mem, List.map_reverse, List.mem_reverse]
    exact last

theorem get?_ofList_eq_none_iff {settings : List (Bytes × α)} {key : Bytes} :
    (ofList settings).get? key = none ↔ key ∉ settings.map Prod.fst := by
  rw [get?_ofList, List.lookup_eq_none_iff, forall_bne_iff_not_mem, List.map_reverse,
    List.mem_reverse]

/-- Keys stand in the order of their first settings. -/
theorem pairwise_keys_ofList (settings : List (Bytes × α)) :
    (ofList settings).keys.Pairwise fun key later =>
      (settings.map Prod.fst).idxOf key < (settings.map Prod.fst).idxOf later := by
  -- From the last setting back: it leaves the earlier places alone, and its key is
  -- either present or comes behind all others.
  induction settings using List.reverseRecOn with
  | nil => exact .nil
  | append_singleton settings entry ih =>
      have kept : (ofList settings).keys.Pairwise fun key later =>
          (settings.map Prod.fst ++ [entry.1]).idxOf key <
            (settings.map Prod.fst ++ [entry.1]).idxOf later := by
        refine ih.imp_of_mem fun {key later} mem mem' before => ?_
        rwa [List.idxOf_append_of_mem (mem_keys_ofList.mp mem),
          List.idxOf_append_of_mem (mem_keys_ofList.mp mem')]
      rw [ofList_eq_setAll, setAll_concat, ← ofList_eq_setAll, List.map_append, List.map_singleton]
      by_cases present : entry.1 ∈ (ofList settings).keys
      · rwa [keys_set_of_mem entry.2 present]
      · have absent : entry.1 ∉ settings.map Prod.fst := by
          intro mem
          exact present (mem_keys_ofList.mpr mem)
        rw [keys_set_of_not_mem entry.2 present, List.pairwise_append]
        refine ⟨kept, List.pairwise_singleton .., ?_⟩
        intro key mem later isLast
        obtain rfl := List.mem_singleton.mp isLast
        rw [List.idxOf_append_of_mem (mem_keys_ofList.mp mem), List.idxOf_append_of_notMem absent]
        exact Nat.lt_add_right _ (List.idxOf_lt_length_iff.mpr (mem_keys_ofList.mp mem))

/-- A new dictionary after any sequence of settings: no key is listed twice, the keys
that were ever set are listed, in the order of their first settings, each has the
value of its last setting and no other key has a value, and the size is the number of
distinct keys. -/
theorem ofList_insertionOrdered (settings : List (Bytes × α)) :
    let dict := ofList settings
    let keysSet := settings.map Prod.fst
    dict.keys.Nodup ∧ (∀ key, key ∈ dict.keys ↔ key ∈ keysSet) ∧
      dict.keys.Pairwise (fun key later => keysSet.idxOf key < keysSet.idxOf later) ∧
      (∀ key value, dict.get? key = some value ↔ ∃ before after,
        settings = before ++ (key, value) :: after ∧ key ∉ after.map Prod.fst) ∧
      (∀ key, dict.get? key = none ↔ key ∉ keysSet) ∧
      dict.size = keysSet.toFinset.card := by
  intro dict keysSet
  have members : dict.keys.toFinset = keysSet.toFinset := by
    ext key
    rw [List.mem_toFinset, List.mem_toFinset, mem_keys_ofList]
  refine ⟨nodup_keys_ofList settings, fun _ => mem_keys_ofList, pairwise_keys_ofList settings,
    fun _ _ => get?_ofList_eq_some_iff, fun _ => get?_ofList_eq_none_iff, ?_⟩
  rw [size_eq_length_keys, ← members, List.toFinset_card_of_nodup (nodup_keys_ofList settings)]

/-- The dictionaries that come about by setting keys and by merging, from the empty one. -/
inductive Built : Dict α → Prop
  | empty : Built empty
  | set {dict : Dict α} (built : Built dict) (key : Bytes) (value : α) : Built (dict.set key value)
  | merge {first second : Dict α} (built : Built first) (built' : Built second) :
      Built (first.merge second)

theorem Built.nodup_keys {dict : Dict α} (built : dict.Built) : dict.keys.Nodup := by
  induction built with
  | empty => exact nodup_keys_empty
  | set built key value ih => exact nodup_keys_set value ih
  | merge built built' ih ih' => exact nodup_keys_setAll ih _

section Distinct

variable {dict first second third : Dict α}

theorem mem_entries_of_get? {key : Bytes} {value : α} (found : dict.get? key = some value) :
    (key, value) ∈ dict.entries := by
  obtain ⟨before, after, split, _⟩ := List.lookup_eq_some_iff.mp found
  rw [split]
  exact List.mem_append_right _ List.mem_cons_self

/-- Where no key is repeated, the value of a key is the one it stands with. -/
theorem get?_eq_some_iff_mem (distinct : dict.keys.Nodup) {key : Bytes} {value : α} :
    dict.get? key = some value ↔ (key, value) ∈ dict.entries := by
  refine ⟨mem_entries_of_get?, fun mem => ?_⟩
  cases found : dict.get? key with
  | none =>
      have absent := forall_bne_iff_not_mem.mp (List.lookup_eq_none_iff.mp found)
      exact absurd (List.mem_map_of_mem mem) absent
  | some other =>
      have same : (key, other) = (key, value) :=
        List.inj_on_of_nodup_map distinct (mem_entries_of_get? found) mem rfl
      rw [(Prod.mk.inj same).2]

theorem map_entries_eq (distinct : dict.keys.Nodup) :
    dict.entries.map (Prod.map id some) = dict.keys.map fun key => (key, dict.get? key) := by
  rw [keys, List.map_map]
  apply List.map_congr_left
  intro entry mem
  exact congrArg (Prod.mk entry.1) ((get?_eq_some_iff_mem distinct).mpr mem).symm

/-- A dictionary that repeats no key is determined by its keys and their values. -/
theorem eq_of_keys_eq_of_get?_eq (distinct : first.keys.Nodup) (keys : first.keys = second.keys)
    (values : ∀ key, first.get? key = second.get? key) : first = second := by
  have entries : first.entries.map (Prod.map id some) = second.entries.map (Prod.map id some) := by
    rw [map_entries_eq distinct, map_entries_eq (keys ▸ distinct), keys]
    apply List.map_congr_left
    intro key _
    rw [values key]
  have injective : Function.Injective (Prod.map id some : Bytes × α → Bytes × Option α) :=
    Function.injective_id.prodMap (Option.some_injective α)
  rw [Dict.mk.injEq]
  exact List.map_injective_iff.mpr injective entries

theorem keys_merge (first : Dict α) (distinct : second.keys.Nodup) :
    (first.merge second).keys = first.keys ++ second.keys.filter (· ∉ first.keys) :=
  keys_setAll_of_nodup first distinct

theorem get?_merge (first : Dict α) (distinct : second.keys.Nodup) (key : Bytes) :
    (first.merge second).get? key = (second.get? key).or (first.get? key) := by
  have reversed : (Dict.mk second.entries.reverse).keys.Nodup := by
    rw [keys, List.map_reverse, List.nodup_reverse]
    exact distinct
  have same : second.entries.reverse.lookup key = second.get? key := by
    apply Option.ext
    intro value
    calc
      (Dict.mk second.entries.reverse).get? key = some value
      _ ↔ (key, value) ∈ second.entries.reverse := get?_eq_some_iff_mem reversed
      _ ↔ (key, value) ∈ second.entries := List.mem_reverse
      _ ↔ second.get? key = some value := (get?_eq_some_iff_mem distinct).symm
  rw [merge_eq_setAll, get?_setAll, same]

theorem nodup_keys_merge (distinct : first.keys.Nodup) (second : Dict α) :
    (first.merge second).keys.Nodup :=
  nodup_keys_setAll distinct second.entries

theorem merge_assoc (distinct : first.keys.Nodup) (distinct' : second.keys.Nodup)
    (distinct'' : third.keys.Nodup) :
    (first.merge second).merge third = first.merge (second.merge third) := by
  have later := nodup_keys_merge distinct' third
  apply eq_of_keys_eq_of_get?_eq (nodup_keys_merge (nodup_keys_merge distinct second) third)
  · -- A key of the third that is in neither of the others is new to both groupings.
    have new : third.keys.filter (· ∉ first.keys ++ second.keys.filter (· ∉ first.keys)) =
        (third.keys.filter (· ∉ second.keys)).filter (· ∉ first.keys) := by
      rw [List.filter_filter]
      apply List.filter_congr
      intro key _
      simp only [List.mem_append, List.mem_filter, decide_eq_true_eq]
      grind
    rw [keys_merge _ distinct'', keys_merge _ distinct', keys_merge _ later,
      keys_merge _ distinct'', new, List.filter_append, List.append_assoc]
  · intro key
    rw [get?_merge _ distinct'', get?_merge _ distinct', get?_merge _ later,
      get?_merge _ distinct'', Option.or_assoc]

theorem merge_empty (dict : Dict α) : dict.merge empty = dict := rfl

theorem empty_merge (distinct : dict.keys.Nodup) : empty.merge dict = dict := by
  apply eq_of_keys_eq_of_get?_eq (nodup_keys_merge nodup_keys_empty dict)
  · simp [keys_merge _ distinct]
  · intro key
    rw [get?_merge _ distinct, get?_empty, Option.or_none]

theorem merge_self (distinct : dict.keys.Nodup) : dict.merge dict = dict := by
  apply eq_of_keys_eq_of_get?_eq (nodup_keys_merge distinct dict)
  · have none_new : dict.keys.filter (· ∉ dict.keys) = [] := by
      rw [List.filter_eq_nil_iff]
      simp
    rw [keys_merge _ distinct, none_new, List.append_nil]
  · intro key
    rw [get?_merge _ distinct, Option.or_self]

end Distinct

/-- The operator `//` on dictionaries that came about by setting and merging. The keys
of the left one stay where they are, those of the right one that are new follow in
their order, and the right one's value of a key counts where it has one. Grouping
makes no difference, to the order of keys neither; the empty dictionary changes
nothing on either side, and no dictionary changes itself. -/
theorem merge_ordered {σ : Type} (call : Closure Value → Value → Run σ Value)
    {first second third : Dict Value} (built : first.Built) (built' : second.Built)
    (built'' : third.Built) :
    (∀ left right : Dict Value, Operator.merge.apply call (.dictionary left) (.dictionary right) =
      pure (.dictionary (left.merge right))) ∧
      (first.merge second).keys = first.keys ++ second.keys.filter (· ∉ first.keys) ∧
      (∀ key, (first.merge second).get? key = (second.get? key).or (first.get? key)) ∧
      (first.merge second).merge third = first.merge (second.merge third) ∧
      first.merge empty = first ∧ empty.merge first = first ∧ first.merge first = first :=
  ⟨fun _ _ => rfl, keys_merge first built'.nodup_keys, get?_merge first built'.nodup_keys,
    merge_assoc built.nodup_keys built'.nodup_keys built''.nodup_keys, merge_empty first,
    empty_merge built.nodup_keys, merge_self built.nodup_keys⟩

theorem merge_ordered_overlapping :
    let entry (name text : String) : Bytes × Value := (utf8 name, .string (utf8 text))
    let first : Dict Value := (empty.set (utf8 "b") (.string (utf8 "1"))).set (utf8 "a") .null
    let second : Dict Value := (empty.set (utf8 "c") (.string (utf8 "2"))).set (utf8 "b") .null
    let third : Dict Value := (empty.set (utf8 "d") .null).set (utf8 "a") (.string (utf8 "3"))
    first.Built ∧ second.Built ∧ third.Built ∧
      ((first.merge second).merge third).keys = [utf8 "b", utf8 "a", utf8 "c", utf8 "d"] ∧
      (first.merge second).merge third = first.merge (second.merge third) ∧
      (first.merge (second.merge third)).entries =
        [(utf8 "b", .null), entry "a" "3", entry "c" "2", (utf8 "d", .null)] := by
  intro entry first second third
  have built : first.Built := .set (.set .empty _ _) _ _
  have built' : second.Built := .set (.set .empty _ _) _ _
  have built'' : third.Built := .set (.set .empty _ _) _ _
  let call : Closure Value → Value → Run Unit Value := fun _ argument => pure argument
  have laws := merge_ordered call built built' built''
  exact ⟨built, built', built'', rfl, laws.2.2.2.1, rfl⟩

end Juxta.Dict

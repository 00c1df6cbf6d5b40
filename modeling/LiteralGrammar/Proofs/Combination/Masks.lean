import LiteralGrammar.Proofs.Combination.Sublists
import Mathlib.Data.Finset.Sort
import Mathlib.Data.Fintype.Powerset
import Mathlib.Algebra.BigOperators.Group.Finset.Basic

/-!
Combinations by the places of their items. Each set of places stands for the number whose bits it
is, so the masks below a power of two are exactly the sets, each once, and a combination is what
stands at the places of its mask.
-/
namespace LiteralGrammar.Combination

variable {α : Type}

def itemsAt (items : List α) (places : Finset (Fin items.length)) : List α :=
  (places.sort (· ≤ ·)).map items.get

def mask {n : Nat} (places : Finset (Fin n)) : Nat := Nat.ofBits fun i => decide (i ∈ places)

def placesOf (n mask : Nat) : Finset (Fin n) := {i | mask.testBit i = true}

theorem mask_placesOf {n m : Nat} (bound : m < 2 ^ n) : mask (placesOf n m) = m := by
  have bits : (fun i : Fin n => decide (i ∈ placesOf n m)) = fun i : Fin n => m.testBit i := by
    funext i
    simp [placesOf]
  rw [mask, bits, Nat.ofBits_testBit, Nat.mod_eq_of_lt bound]

theorem placesOf_mask {n : Nat} (places : Finset (Fin n)) : placesOf n (mask places) = places := by
  ext i
  simp [placesOf, mask, Nat.testBit_ofBits_lt]

theorem mask_lt {n : Nat} (places : Finset (Fin n)) : mask places < 2 ^ n := Nat.ofBits_lt_two_pow _

theorem length_itemsAt (items : List α) (places : Finset (Fin items.length)) :
    (itemsAt items places).length = places.card := by
  rw [itemsAt, List.length_map, Finset.length_sort]

/-- A mask selects what stands at its places. -/
theorem select_eq_itemsAt (m : Nat) (items : List α) :
    select m items = itemsAt items (placesOf items.length m) := by
  have sorted : (placesOf items.length m).sort (· ≤ ·) =
      (List.finRange items.length).filter fun i : Fin items.length => m.testBit i := by
    refine (Finset.sortedLT_sort _).eq_of_mem_iff ?_ ?_
    · exact ((List.sortedLT_finRange _).pairwise.filter _).sortedLT
    · simp [placesOf]
  have indexed : items.zipIdx =
      (List.finRange items.length).map fun i : Fin items.length => (items.get i, (i : Nat)) := by
    apply List.ext_getElem
    · simp
    · simp
  rw [select_eq, indexed, itemsAt, sorted, List.filter_map, List.map_map]
  rfl

def allPlaces (n : Nat) : List (Finset (Fin n)) := (List.range (2 ^ n)).map (placesOf n)

theorem mem_allPlaces {n : Nat} (places : Finset (Fin n)) : places ∈ allPlaces n :=
  List.mem_map.mpr ⟨mask places, List.mem_range.mpr (mask_lt places), placesOf_mask places⟩

theorem allPlaces_sorted (n : Nat) : (allPlaces n).Pairwise fun s t => mask s < mask t := by
  rw [allPlaces, List.pairwise_map]
  refine List.pairwise_lt_range.imp_of_mem fun inS inT less => ?_
  rwa [mask_placesOf (List.mem_range.mp inS), mask_placesOf (List.mem_range.mp inT)]

theorem powerSet_eq_map (items : List α) :
    powerSet items = (allPlaces items.length).map (itemsAt items) := by
  rw [powerSet, allPlaces, List.map_map, Nat.one_shiftLeft]
  exact List.map_congr_left fun m _ => select_eq_itemsAt m items

def placesUpTo (n most : Nat) : List (Finset (Fin n)) := (allPlaces n).filter (·.card ≤ most)

theorem powerSetUpTo_eq_map (most : Nat) (items : List α) :
    powerSetUpTo most items = (placesUpTo items.length most).map (itemsAt items) := by
  rw [powerSetUpTo, powerSet_eq_map, List.filter_map, placesUpTo]
  congr 2
  funext s
  simp [length_itemsAt]

theorem mem_placesUpTo {n most : Nat} (places : Finset (Fin n)) :
    places ∈ placesUpTo n most ↔ places.card ≤ most := by
  simp [placesUpTo, mem_allPlaces]

theorem placesUpTo_sorted (n most : Nat) :
    (placesUpTo n most).Pairwise fun s t => mask s < mask t :=
  (allPlaces_sorted n).filter _

theorem placesUpTo_nodup (n most : Nat) : (placesUpTo n most).Nodup :=
  (placesUpTo_sorted n most).imp fun less same => by simp [same] at less

theorem length_placesUpTo (n most : Nat) :
    (placesUpTo n most).length = ∑ i ∈ Finset.range (min most n + 1), n.choose i := by
  have sizes : ∀ s ∈ (placesUpTo n most).toFinset, s.card ∈ Finset.range (min most n + 1) := by
    intro s member
    have small := (mem_placesUpTo s).mp (List.mem_toFinset.mp member)
    have full := Finset.card_le_univ s
    rw [Fintype.card_fin] at full
    exact Finset.mem_range.mpr (Nat.lt_succ_of_le (le_min small full))
  rw [← List.toFinset_card_of_nodup (placesUpTo_nodup n most),
    Finset.card_eq_sum_card_fiberwise sizes]
  refine Finset.sum_congr rfl fun i size => ?_
  have fiber : {s ∈ (placesUpTo n most).toFinset | s.card = i} = Finset.powersetCard i Finset.univ := by
    ext s
    have small := Finset.mem_range.mp size
    simp only [Finset.mem_filter, List.mem_toFinset, mem_placesUpTo, Finset.mem_powersetCard,
      Finset.subset_univ, true_and]
    omega
  rw [fiber, Finset.card_powersetCard, Finset.card_univ, Fintype.card_fin]

theorem select_concat (m : Nat) (items : List α) (x : α) :
    select m (items ++ [x]) =
      select m items ++ if m.testBit items.length then [x] else [] := by
  rw [select_eq, select_eq, List.zipIdx_append, List.filter_append, List.map_append]
  congr 1
  by_cases bit : m.testBit items.length <;> simp [bit]

theorem select_add_two_pow (m : Nat) (items : List α) :
    select (2 ^ items.length + m) items = select m items := by
  rw [select_eq, select_eq]
  congr 1
  apply List.filter_congr
  intro p member
  have inside : p.2 < items.length := by simpa using List.snd_lt_of_mem_zipIdx member
  exact Nat.testBit_two_pow_add_gt inside m

/-- With one item more, each combination comes again with that item behind it. -/
theorem powerSet_concat (items : List α) (x : α) :
    powerSet (items ++ [x]) = powerSet items ++ (powerSet items).map (· ++ [x]) := by
  have masks : 1 <<< (items ++ [x]).length = 2 ^ items.length + 2 ^ items.length := by
    rw [Nat.one_shiftLeft, List.length_append, List.length_singleton, Nat.pow_succ, Nat.mul_two]
  rw [powerSet, masks, List.range_add, List.map_append, powerSet, Nat.one_shiftLeft, List.map_map,
    List.map_map]
  congr 1
  · apply List.map_congr_left
    intro m below
    have bit := Nat.testBit_lt_two_pow (List.mem_range.mp below)
    simp [select_concat, bit]
  · apply List.map_congr_left
    intro m below
    have bit := Nat.testBit_lt_two_pow (List.mem_range.mp below)
    simp [select_concat, select_add_two_pow, Nat.testBit_two_pow_add_eq, bit]

theorem itemsAt_injective {items : List α} (distinct : items.Nodup) :
    Function.Injective (itemsAt items) := by
  intro s t same
  have places := List.map_injective_iff.mpr (List.nodup_iff_injective_get.mp distinct) same
  rw [← Finset.sort_toFinset s (· ≤ ·), places, Finset.sort_toFinset]

theorem bounded_eq (cap : Option Nat) (items : List α) :
    bounded (cap.map Int.ofNat) items = .ok (powerSetUpTo (cap.getD items.length) items) := by
  cases cap with
  | none => rfl
  | some n => simp [bounded]

theorem bounded_none (items : List α) : bounded none items = .ok (powerSet items) :=
  congrArg Except.ok (powerSetUpTo_length items)

/-- Under a cap the combinations are what stands at each set of so many places, each set once and in
the order of the masks. An item more brings each combination again, and a negative cap is refused. -/
theorem combinations_enumerated :
    (∀ (items : List α) (cap : Option Nat), ∃ places : List (Finset (Fin items.length)),
      bounded (cap.map Int.ofNat) items = .ok (places.map (itemsAt items)) ∧ places.Nodup ∧
        (∀ s, s ∈ places ↔ s.card ≤ cap.getD items.length) ∧
        places.Pairwise (fun s t => mask s < mask t) ∧
        (places.map (itemsAt items)).length =
          ∑ i ∈ Finset.range (min (cap.getD items.length) items.length + 1), items.length.choose i ∧
        (items.Nodup → (places.map (itemsAt items)).Nodup)) ∧
      (∀ (items : List α) (x : α), ∃ all, bounded none items = .ok all ∧
        bounded none (items ++ [x]) = .ok (all ++ all.map (· ++ [x]))) ∧
      ∀ (items : List α) (cap : Int), cap < 0 → bounded (some cap) items = .error ⟨cap⟩ := by
  refine ⟨fun items cap => ?_, fun items x => ?_, fun items cap negative => if_pos negative⟩
  · refine ⟨placesUpTo items.length (cap.getD items.length), ?_, placesUpTo_nodup _ _,
      mem_placesUpTo, placesUpTo_sorted _ _, ?_, ?_⟩
    · rw [bounded_eq, powerSetUpTo_eq_map]
    · rw [List.length_map, length_placesUpTo]
    · exact fun distinct => (placesUpTo_nodup _ _).map (itemsAt_injective distinct)
  · exact ⟨powerSet items, bounded_none items, by rw [bounded_none, powerSet_concat]⟩

theorem combinations_enumerated_letters :
    let letters : Text := "abc"
    letters.Nodup ∧ (-1 : Int) < 0 ∧ bounded (some (-1)) letters = .error ⟨-1⟩ ∧
      ∃ places : List (Finset (Fin letters.length)),
        bounded (some 2) letters = .ok (places.map (itemsAt letters)) ∧
          (∀ s, s ∈ places ↔ s.card ≤ 2) ∧
          (places.map (itemsAt letters)).length = 7 ∧ (places.map (itemsAt letters)).Nodup := by
  intro letters
  have distinct : letters.Nodup := by decide
  obtain ⟨upTo, -, refused⟩ := combinations_enumerated (α := Char)
  obtain ⟨places, ok, -, members, -, length, nodup⟩ := upTo letters (some 2)
  exact ⟨distinct, by decide, refused letters (-1) (by decide), places, ok, members,
    length.trans (by decide), nodup distinct⟩

end LiteralGrammar.Combination

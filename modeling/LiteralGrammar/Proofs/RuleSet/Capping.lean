import LiteralGrammar.Proofs.Combination.Masks
import LiteralGrammar.Proofs.Combination.Ordering
import LiteralGrammar.Proofs.Rule.Building
import LiteralGrammar.RuleSet

/-!
Grammars for fewer markers at a time. The rules of a capped grammar are the last rules of the full
one, since the order of combinations puts those that the cap leaves out in front of all others.
-/
namespace LiteralGrammar

def Config.uncapped (c : Config) : Config :=
  { c with maxMarkers := markerCount, maxMarkers_le := Nat.le_refl markerCount }

namespace Combination

variable {α : Type}

theorem distinct_of_mem_powerSetUpTo {items : List α} (distinct : items.Nodup) (cap : Nat) :
    ∀ c ∈ powerSetUpTo cap items, c.Nodup :=
  fun c member => distinct.sublist ((mem_powerSetUpTo cap c items).mp member).1

theorem ofMarkers_suffix (cap : Nat) : ofMarkers cap <:+ ofMarkers markerCount := by
  have full : powerSetUpTo markerCount Marker.canonical = powerSet Marker.canonical :=
    powerSetUpTo_length Marker.canonical
  rw [ofMarkers, ofMarkers, full]
  exact longestFirst_filter_suffix _ cap

end Combination

namespace RuleSet

open Combination

theorem ofConfig_suffix (c : Config) : (ofConfig c).rules <:+ (ofConfig c.uncapped).rules := by
  obtain ⟨front, split⟩ := ofMarkers_suffix c.maxMarkers
  change _ <:+ (ofMarkers markerCount).flatMap _
  rw [← split, List.flatMap_append]
  exact List.suffix_append _ _

theorem rules_eq_flatMap (c : Config) :
    (ofConfig c).rules.map .ok =
      (longestFirst (powerSetUpTo c.maxMarkers Marker.canonical)).flatMap fun ms =>
        variants.map fun (q, multiline) =>
          Rule.build c (.quote q) multiline (ms.map .marker) := by
  rw [ofConfig, List.map_flatMap, Combination.ofMarkers]
  refine List.flatMap_congr fun ms member => ?_
  rw [List.map_map]
  refine List.map_congr_left fun v _ => ?_
  exact (Rule.build_markers c v.1 v.2 ((mem_ofMarkers _ ms).mp member).1).symm

theorem size_ofConfig (c : Config) :
    (ofConfig c).size = 4 * (powerSetUpTo c.maxMarkers Marker.canonical).length := by
  have each : (Combination.ofMarkers c.maxMarkers).length =
      (powerSetUpTo c.maxMarkers Marker.canonical).length := (longestFirst_perm _).length_eq
  simp only [size, ofConfig, List.length_flatMap, List.length_map, List.map_const', List.sum_replicate,
    each]
  exact Nat.mul_comm _ 4

/-- The order is stable and puts the longest first, so a cap takes the last combinations, and with
them the last rules: four for each combination, the tripled quotes in front. -/
theorem capped_rules_last {α : Type} :
    (∀ l : List (List α), (longestFirst l).Perm l ∧
        (longestFirst l).Pairwise (fun a b => b.length ≤ a.length) ∧
        ∀ k, (longestFirst l).filter (·.length = k) = l.filter (·.length = k)) ∧
      (∀ (items : List α) (cap : Nat), items.Nodup → ∃ capped all,
        bounded (some cap) items = .ok capped ∧ bounded none items = .ok all ∧
          longestFirst capped <:+ longestFirst all ∧ LargerFirst (longestFirst capped) ∧
          LargerFirst (longestFirst all)) ∧
      ∀ c : Config, ∃ capped, bounded (some c.maxMarkers) Marker.canonical = .ok capped ∧
        (ofConfig c).rules.map .ok = (longestFirst capped).flatMap (fun ms =>
          [Rule.build c (.quote .single) true (ms.map .marker),
            Rule.build c (.quote .double) true (ms.map .marker),
            Rule.build c (.quote .single) false (ms.map .marker),
            Rule.build c (.quote .double) false (ms.map .marker)]) ∧
        (ofConfig c).size = 4 * capped.length ∧
        (ofConfig c).rules <:+ (ofConfig c.uncapped).rules := by
  refine ⟨fun l => ⟨longestFirst_perm l, longestFirst_sorted l, fun k => ofLength_longestFirst k l⟩,
    fun items cap distinct => ?_, fun c => ⟨_, bounded_eq (some c.maxMarkers) Marker.canonical,
      rules_eq_flatMap c, size_ofConfig c, ofConfig_suffix c⟩⟩
  refine ⟨powerSetUpTo cap items, powerSet items, bounded_eq (some cap) items, bounded_none items,
    longestFirst_filter_suffix _ cap, ?_, ?_⟩
  · exact longestFirst_largerFirst (distinct_of_mem_powerSetUpTo distinct cap)
  · rw [← powerSetUpTo_length]
    exact longestFirst_largerFirst (distinct_of_mem_powerSetUpTo distinct items.length)

theorem capped_rules_last_letters :
    let letters : Text := "abcd"
    letters.Nodup ∧ ∃ capped all, bounded (some (2 : Nat)) letters = .ok capped ∧
      bounded none letters = .ok all ∧ longestFirst capped <:+ longestFirst all ∧
      LargerFirst (longestFirst capped) ∧ LargerFirst (longestFirst all) := by
  intro letters
  have distinct : letters.Nodup := by decide
  exact ⟨distinct, (capped_rules_last (α := Char)).2.1 letters 2 distinct⟩

end RuleSet

end LiteralGrammar

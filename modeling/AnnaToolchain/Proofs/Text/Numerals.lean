import AnnaToolchain.Proofs.Outcome
import AnnaToolchain.Proofs.Text.ReadBack
import Mathlib.Data.List.Induction
import Mathlib.Data.Nat.Digits.Defs

/-! # Numerals

    A numeral is a row of digits of a base, and stands for a number by the
    place of each digit.  Reading takes the digits from the left, and gives
    that number (`valueOf?_eq_some_iff`). -/

namespace AnnaToolchain.Text

variable {base n : Nat} {cs : List Char}

/-- The characters are the digits of a number in the base, the most significant ones first. -/
def IsNumeral (base : Nat) (cs : List Char) (n : Nat) : Prop :=
  ∃ ds, List.Forall₂ (fun c d => digitOf? base c = some d) cs.reverse ds ∧ n = Nat.ofDigits base ds

theorem digitOf?_lt {c : Char} {d : Nat} (h : digitOf? base c = some d) : d < base := by
  unfold digitOf? at h
  exact of_decide_eq_true (Option.filter_eq_some_iff.mp h).2

theorem IsNumeral.lt (h : IsNumeral base cs n) (hbase : 1 < base) : n < base ^ cs.length := by
  obtain ⟨ds, hds, rfl⟩ := h
  have hlt : ∀ d ∈ ds, d < base := forall_mem_right_of_forall₂ (fun _ _ => digitOf?_lt) hds
  have hvalue := Nat.ofDigits_lt_base_pow_length hbase hlt
  rwa [← hds.length_eq, List.length_reverse] at hvalue

theorem isNumeral_nil : IsNumeral base [] n ↔ n = 0 := by
  unfold IsNumeral
  simp

theorem isNumeral_concat {c : Char} :
    IsNumeral base (cs ++ [c]) n ↔
      ∃ m d, IsNumeral base cs m ∧ digitOf? base c = some d ∧ n = m * base + d := by
  unfold IsNumeral
  rw [List.reverse_concat]
  constructor
  · rintro ⟨ds, hds, rfl⟩
    obtain ⟨d, ds', hd, hds', rfl⟩ := List.forall₂_cons_left_iff.mp hds
    refine ⟨_, d, ⟨ds', hds', rfl⟩, hd, ?_⟩
    rw [Nat.ofDigits_cons, Nat.mul_comm, Nat.add_comm]
  · rintro ⟨m, d, ⟨ds, hds, rfl⟩, hd, rfl⟩
    refine ⟨d :: ds, .cons hd hds, ?_⟩
    rw [Nat.ofDigits_cons, Nat.mul_comm, Nat.add_comm]

/-- **Reading** digits gives the number that they stand for. -/
theorem valueOf?_eq_some_iff : valueOf? base cs = some n ↔ IsNumeral base cs n := by
  induction cs using List.reverseRecOn generalizing n with
  | nil =>
    rw [isNumeral_nil, eq_comm]
    exact Option.some_inj
  | append_singleton cs c ih =>
    rw [valueOf?_concat, isNumeral_concat, Option.bind_eq_some_iff]
    simp only [ih, Option.map_eq_some_iff, exists_and_left, eq_comm (a := n)]

end AnnaToolchain.Text

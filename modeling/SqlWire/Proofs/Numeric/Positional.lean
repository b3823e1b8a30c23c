import Mathlib.Data.Nat.Digits.Lemmas
import Mathlib.Data.Rat.Floor
import Mathlib.Tactic
import SqlWire.Numeric.Literal

/-!
# Digits behind a point

A run of digits, most significant first, is read as the number below one that
has these digits behind the point: `fractional base digits`.  Read so, the first
digit keeps its place when digits come or go at the end, and this is what groups
of four decimal digits and decimal digits have in common.

* `fractional_take`: cutting off digits is rounding down.
* `fractional_injective`: without zeros at the end, a number has one run of
  digits.
* `magnitude_eq`: `Literal.magnitude` is the same reading with the point moved
  behind the last digit.
-/

namespace SqlWire

/-- The number below one that has the given digits behind the point. -/
def fractional (base : Nat) : List Nat → ℚ
  | [] => 0
  | d :: rest => (d + fractional base rest) / base

section

variable {b : Nat}

@[simp] theorem fractional_nil : fractional b [] = 0 := rfl

theorem fractional_cons (d : Nat) (rest : List Nat) :
    fractional b (d :: rest) = (d + fractional b rest) / b := rfl

theorem fractional_nonneg (ds : List Nat) : 0 ≤ fractional b ds := by
  induction ds with
  | nil => exact le_refl 0
  | cons d rest ih =>
    rw [fractional_cons]
    positivity

theorem fractional_lt_one (hb : 0 < b) {ds : List Nat} (h : ∀ d ∈ ds, d < b) :
    fractional b ds < 1 := by
  induction ds with
  | nil => exact zero_lt_one
  | cons d rest ih =>
    have hrest := ih fun x hx => h x (List.mem_cons_of_mem _ hx)
    have hd : (d : ℚ) + 1 ≤ b := by exact_mod_cast h d List.mem_cons_self
    have hbq : (0 : ℚ) < b := by exact_mod_cast hb
    rw [fractional_cons, div_lt_one hbq]
    linarith

/-! ### Runs laid end to end -/

theorem fractional_append (xs ys : List Nat) :
    fractional b (xs ++ ys) = fractional b xs + fractional b ys / b ^ xs.length := by
  induction xs with
  | nil => simp
  | cons x rest ih =>
    rw [List.cons_append, fractional_cons, fractional_cons, ih, List.length_cons, pow_succ]
    ring

theorem fractional_zeros (n : Nat) : fractional b (List.replicate n 0) = 0 := by
  induction n with
  | zero => rfl
  | succ n ih => simp [List.replicate_succ, fractional_cons, ih]

theorem fractional_append_zeros (ds : List Nat) (n : Nat) :
    fractional b (ds ++ List.replicate n 0) = fractional b ds := by
  rw [fractional_append, fractional_zeros, zero_div, add_zero]

theorem fractional_zeros_append (n : Nat) (ds : List Nat) :
    fractional b (List.replicate n 0 ++ ds) = fractional b ds / b ^ n := by
  rw [fractional_append, fractional_zeros, zero_add, List.length_replicate]

/-! ### Cutting off digits -/

/-- **Cutting off digits rounds down** to a whole number of units of the last place kept. -/
theorem fractional_take (hb : 0 < b) {ds : List Nat} (h : ∀ d ∈ ds, d < b) (k : Nat) :
    fractional b (ds.take k) = (⌊fractional b ds * b ^ k⌋₊ : ℚ) / b ^ k := by
  have hbq : (b : ℚ) ≠ 0 := by exact_mod_cast hb.ne'
  induction ds generalizing k with
  | nil => simp
  | cons d rest ih =>
    cases k with
    | zero =>
      have hfloor : ⌊fractional b (d :: rest)⌋₊ = 0 :=
        Nat.floor_eq_zero.2 (fractional_lt_one hb h)
      simp [hfloor]
    | succ k =>
      have hrest := ih (fun x hx => h x (List.mem_cons_of_mem _ hx)) k
      have hscaled : fractional b (d :: rest) * b ^ (k + 1) =
          fractional b rest * b ^ k + ((d * b ^ k : Nat) : ℚ) := by
        rw [fractional_cons, pow_succ]
        push_cast
        field_simp
        ring
      have hnonneg : 0 ≤ fractional b rest * (b : ℚ) ^ k :=
        mul_nonneg (fractional_nonneg rest) (by positivity)
      rw [List.take_succ_cons, fractional_cons, hrest, hscaled, Nat.floor_add_natCast hnonneg,
        pow_succ]
      push_cast
      field_simp
      ring

/-! ### One run for each number -/

theorem getLast?_tail_ne {d : Nat} {rest : List Nat} (h : (d :: rest).getLast? ≠ some 0) :
    rest.getLast? ≠ some 0 := by
  cases rest with
  | nil => simp
  | cons e rest => rwa [List.getLast?_cons_cons] at h

theorem eq_nil_of_fractional_eq_zero (hb : 0 < b) {ds : List Nat}
    (hlast : ds.getLast? ≠ some 0) (h : fractional b ds = 0) : ds = [] := by
  have hbq : (b : ℚ) ≠ 0 := by exact_mod_cast hb.ne'
  induction ds with
  | nil => rfl
  | cons d rest ih =>
    exfalso
    rw [fractional_cons, div_eq_zero_iff] at h
    have hsum := h.resolve_right hbq
    have hnonneg := fractional_nonneg (b := b) rest
    have hd : (0 : ℚ) ≤ d := Nat.cast_nonneg d
    have hrest := ih (getLast?_tail_ne hlast) (by linarith)
    subst hrest
    rw [fractional_nil, add_zero, Nat.cast_eq_zero] at hsum
    exact hlast (by simp [hsum])

/-- **A number has one run of digits** without a zero at its end. -/
theorem fractional_injective (hb : 0 < b) {xs ys : List Nat} (hx : ∀ d ∈ xs, d < b)
    (hy : ∀ d ∈ ys, d < b) (hxlast : xs.getLast? ≠ some 0) (hylast : ys.getLast? ≠ some 0)
    (h : fractional b xs = fractional b ys) : xs = ys := by
  have hbq : (b : ℚ) ≠ 0 := by exact_mod_cast hb.ne'
  induction xs generalizing ys with
  | nil => exact (eq_nil_of_fractional_eq_zero hb hylast h.symm).symm
  | cons x xs ih =>
    cases ys with
    | nil => exact eq_nil_of_fractional_eq_zero hb hxlast h
    | cons y ys =>
      have hxs : ∀ d ∈ xs, d < b := fun d hd => hx d (List.mem_cons_of_mem _ hd)
      have hys : ∀ d ∈ ys, d < b := fun d hd => hy d (List.mem_cons_of_mem _ hd)
      have hsum : (x : ℚ) + fractional b xs = y + fractional b ys := by
        rwa [fractional_cons, fractional_cons, div_left_inj' hbq] at h
      -- the first digit is the whole part of both sides
      have hfirst : x = y := by
        have hfloor : ∀ (d : Nat) {ds : List Nat}, (∀ e ∈ ds, e < b) →
            ⌊(d : ℚ) + fractional b ds⌋₊ = d := by
          intro d ds hds
          rw [add_comm, Nat.floor_add_natCast (fractional_nonneg ds),
            Nat.floor_eq_zero.2 (fractional_lt_one hb hds), zero_add]
        rw [← hfloor x hxs, ← hfloor y hys, hsum]
      subst hfirst
      rw [ih hxs hys (getLast?_tail_ne hxlast) (getLast?_tail_ne hylast) (by linarith)]

end

/-! ### The number that decimal digits spell -/

namespace Literal

theorem foldl_eq (ds : List Nat) (n : Nat) :
    ds.foldl (fun acc d => acc * 10 + d) n = n * 10 ^ ds.length + magnitude ds := by
  induction ds generalizing n with
  | nil => simp [magnitude]
  | cons d rest ih =>
    rw [magnitude, List.foldl_cons, List.foldl_cons, ih, ih (0 * 10 + d), List.length_cons,
      pow_succ]
    ring

theorem magnitude_append (xs ys : List Nat) :
    magnitude (xs ++ ys) = magnitude xs * 10 ^ ys.length + magnitude ys := by
  rw [magnitude, List.foldl_append, foldl_eq]
  rfl

theorem magnitude_cons (d : Nat) (rest : List Nat) :
    magnitude (d :: rest) = d * 10 ^ rest.length + magnitude rest := by
  rw [magnitude, List.foldl_cons, foldl_eq, Nat.zero_mul, Nat.zero_add]

/-- The number is the one with the digits behind the point, moved up by their count. -/
theorem magnitude_eq (ds : List Nat) :
    (magnitude ds : ℚ) = fractional 10 ds * 10 ^ ds.length := by
  induction ds with
  | nil => simp [magnitude]
  | cons d rest ih =>
    rw [magnitude_cons, fractional_cons, List.length_cons, pow_succ]
    push_cast
    rw [ih]
    ring

theorem magnitude_lt {ds : List Nat} (h : ∀ d ∈ ds, d < 10) : magnitude ds < 10 ^ ds.length := by
  have hlt := fractional_lt_one (b := 10) (by decide) h
  have hpow : (0 : ℚ) < 10 ^ ds.length := by positivity
  have hq : (magnitude ds : ℚ) < 10 ^ ds.length := by
    rw [magnitude_eq]
    nlinarith
  exact_mod_cast hq

theorem magnitude_div_mod (ws : List Nat) {fs : List Nat} (h : ∀ d ∈ fs, d < 10) :
    magnitude (ws ++ fs) / 10 ^ fs.length = magnitude ws ∧
      magnitude (ws ++ fs) % 10 ^ fs.length = magnitude fs := by
  have hlt := magnitude_lt h
  rw [magnitude_append, Nat.mul_comm, Nat.mul_add_div (by positivity), Nat.div_eq_of_lt hlt,
    Nat.mul_add_mod, Nat.mod_eq_of_lt hlt]
  exact ⟨rfl, rfl⟩

theorem magnitude_eq_ofDigits (ds : List Nat) : magnitude ds = Nat.ofDigits 10 ds.reverse := by
  induction ds with
  | nil => rfl
  | cons d rest ih =>
    rw [magnitude_cons, ih, List.reverse_cons, Nat.ofDigits_append, Nat.ofDigits_singleton,
      List.length_reverse]
    ring

theorem eq_of_magnitude_eq {xs ys : List Nat} (hx : ∀ d ∈ xs, d < 10) (hy : ∀ d ∈ ys, d < 10)
    (hlen : xs.length = ys.length) (h : magnitude xs = magnitude ys) : xs = ys := by
  rw [magnitude_eq_ofDigits, magnitude_eq_ofDigits] at h
  refine List.reverse_injective (Nat.ofDigits_inj_of_len_eq (by decide) (by simpa using hlen)
    (fun d hd => hx d (List.mem_reverse.1 hd)) (fun d hd => hy d (List.mem_reverse.1 hd)) h)

theorem eq_of_magnitude_eq_of_head {xs ys : List Nat} (hx : ∀ d ∈ xs, d < 10)
    (hy : ∀ d ∈ ys, d < 10) (hxhead : xs.head? ≠ some 0) (hyhead : ys.head? ≠ some 0)
    (h : magnitude xs = magnitude ys) : xs = ys := by
  have hdigits : ∀ {ds : List Nat}, (∀ d ∈ ds, d < 10) → ds.head? ≠ some 0 →
      Nat.digits 10 (magnitude ds) = ds.reverse := by
    intro ds hlt hhead
    rw [magnitude_eq_ofDigits]
    refine Nat.digits_ofDigits 10 (by decide) _ (fun d hd => hlt d (List.mem_reverse.1 hd)) ?_
    intro hne hlast
    apply hhead
    rw [← List.getLast?_reverse, List.getLast?_eq_some_getLast hne, hlast]
  rw [← List.reverse_inj, ← hdigits hx hxhead, ← hdigits hy hyhead, h]

end Literal

end SqlWire

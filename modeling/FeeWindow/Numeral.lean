/-!
Numbers written in a base. Digits are listed least significant first, `digits` writes the
shortest list, and `value` reads any list. Texts are written most significant digit first.
-/

namespace FeeWindow.Numeral

/-- The digits of `n` in `base`, least significant first, with no zero at the top. Zero has
no digits. -/
def digits (base n : Nat) : List Nat :=
  if _h : 1 < base ∧ 0 < n then n % base :: digits base (n / base) else []
termination_by n
decreasing_by exact Nat.div_lt_self _h.2 _h.1

/-- The number that a list of digits denotes, least significant first. -/
def value (base : Nat) : List Nat → Nat
  | [] => 0
  | d :: rest => d + base * value base rest

/-- The character of a digit below sixteen, letters in lower case. -/
def digitChar (d : Nat) : Char :=
  if d < 10 then Char.ofNat (48 + d) else Char.ofNat (87 + d)

/-- The digit that a character stands for: `0` to `9`, then the letters `a` to `f` of either
case. -/
def digit? (c : Char) : Option Nat :=
  if 48 ≤ c.toNat ∧ c.toNat ≤ 57 then some (c.toNat - 48)
  else if 97 ≤ c.toNat ∧ c.toNat ≤ 102 then some (c.toNat - 87)
  else if 65 ≤ c.toNat ∧ c.toNat ≤ 70 then some (c.toNat - 55)
  else none

/-- The numeral of `n`, most significant digit first; zero is the single digit `0`. -/
def text (base n : Nat) : List Char :=
  if n = 0 then ['0'] else ((digits base n).map digitChar).reverse

/-- Reads one or more digits of `base`, most significant first. Zeros at the top are allowed. -/
def ofText? (base : Nat) (s : List Char) : Option Nat :=
  if s = [] then none
  else (s.reverse.mapM fun c => (digit? c).filter (· < base)).map (value base)

theorem value_digits {base : Nat} (hbase : 1 < base) (n : Nat) :
    value base (digits base n) = n := by
  induction n using Nat.strongRecOn with
  | ind n ih =>
      rw [digits]
      split
      · next h =>
          rw [value, ih _ (Nat.div_lt_self h.2 h.1)]
          exact Nat.mod_add_div n base
      · next h =>
          have : n = 0 := by omega
          subst this
          rfl

theorem lt_of_mem_digits {base n d : Nat} (hd : d ∈ digits base n) : d < base := by
  induction n using Nat.strongRecOn with
  | ind n ih =>
      rw [digits] at hd
      split at hd
      · next h =>
          rcases List.mem_cons.mp hd with rfl | hrest
          · exact Nat.mod_lt _ (by omega)
          · exact ih _ (Nat.div_lt_self h.2 h.1) hrest
      · cases hd

theorem natPow_succ (base k : Nat) : Nat.pow base (k + 1) = base * Nat.pow base k :=
  Nat.mul_comm _ _

theorem value_lt {base : Nat} {ds : List Nat} (hds : ∀ d ∈ ds, d < base) :
    value base ds < Nat.pow base ds.length := by
  induction ds with
  | nil => simp [value]
  | cons d rest ih =>
      have hd := hds d List.mem_cons_self
      have hrest := ih fun x hx => hds x (List.mem_cons_of_mem _ hx)
      have hstep : base * (value base rest + 1) ≤ base * Nat.pow base rest.length :=
        Nat.mul_le_mul_left _ hrest
      rw [Nat.mul_add, Nat.mul_one] at hstep
      rw [value, List.length_cons, natPow_succ]
      omega

theorem length_digits_le {base : Nat} {k n : Nat} (hn : n < Nat.pow base k) :
    (digits base n).length ≤ k := by
  induction k generalizing n with
  | zero =>
      have : n = 0 := by simpa using hn
      subst this
      rw [digits]
      simp
  | succ k ih =>
      rw [digits]
      split
      · next h =>
          rw [natPow_succ] at hn
          have := ih (Nat.div_lt_of_lt_mul hn)
          simp only [List.length_cons]
          omega
      · simp

end FeeWindow.Numeral

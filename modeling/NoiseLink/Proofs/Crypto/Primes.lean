import Mathlib.Data.List.Prime
import Mathlib.NumberTheory.LucasPrimality
import Mathlib.Tactic.NormNum.Prime
import NoiseLink.Crypto.Secp256k1

/-! The coordinates of the curve are numbers modulo a prime, and its generator has a prime order.
Certificates show both: a number is prime if some base has as many powers modulo the number as there
are positive numbers below it, and the prime factors of that count tell whether it has. -/
namespace NoiseLink.Secp256k1

def powerMod (m base : Nat) : Nat → Nat → Nat
  | 0, _ => 1 % m
  | bits + 1, exponent =>
    let half := powerMod m base bits (exponent / 2)
    if exponent % 2 = 0 then half * half % m else half * half % m * base % m

theorem powerMod_eq (m base : Nat) {bits exponent : Nat} (fits : exponent < 2 ^ bits) :
    powerMod m base bits exponent = base ^ exponent % m := by
  induction bits generalizing exponent with
  | zero =>
    have zero : exponent = 0 := by simpa using fits
    rw [zero, powerMod, pow_zero]
  | succ bits ih =>
    have half : powerMod m base bits (exponent / 2) = base ^ (exponent / 2) % m :=
      ih (by rw [pow_succ] at fits; omega)
    have square : (base ^ (exponent / 2) % m) * (base ^ (exponent / 2) % m) % m =
        base ^ (exponent / 2 + exponent / 2) % m := by rw [← Nat.mul_mod, ← pow_add]
    simp only [powerMod, half, square]
    split
    · have even : exponent / 2 + exponent / 2 = exponent := by omega
      rw [even]
    · have odd : exponent / 2 + exponent / 2 + 1 = exponent := by omega
      rw [Nat.mod_mul_mod, ← pow_succ, odd]

theorem natCast_pow_eq_one_iff {m base exponent : Nat} (bits : Nat) (large : 1 < m)
    (fits : exponent < 2 ^ bits) :
    (base : ZMod m) ^ exponent = 1 ↔ powerMod m base bits exponent = 1 := by
  rw [powerMod_eq m base fits, ← Nat.cast_pow, ← Nat.cast_one, ZMod.natCast_eq_natCast_iff',
    Nat.mod_eq_of_lt large]

/-- A number, a base, and the factors of the number's predecessor. -/
structure Certificate where
  (number base : Nat)
  factors : List Nat

/-- The base has order one less than the number, by factors that are known to be prime. -/
def Certificate.Passes (known : List Nat) (c : Certificate) : Prop :=
  1 < c.number ∧ c.number ≤ 2 ^ 256 ∧ c.factors.prod = c.number - 1 ∧
    powerMod c.number c.base 256 (c.number - 1) = 1 ∧
    ∀ q ∈ c.factors, q ∈ known ∧ powerMod c.number c.base 256 ((c.number - 1) / q) ≠ 1

instance (known : List Nat) (c : Certificate) : Decidable (c.Passes known) := by
  unfold Certificate.Passes
  infer_instance

theorem Certificate.Passes.prime {known : List Nat} {c : Certificate} (passes : c.Passes known)
    (primes : ∀ q ∈ known, q.Prime) : c.number.Prime := by
  obtain ⟨large, bounded, product, whole, parts⟩ := passes
  have isOne {exponent : Nat} (below : exponent ≤ c.number - 1) :
      (c.base : ZMod c.number) ^ exponent = 1 ↔ powerMod c.number c.base 256 exponent = 1 :=
    natCast_pow_eq_one_iff _ large (by omega)
  refine lucas_primality c.number c.base ((isOne (Nat.le_refl _)).2 whole) ?_
  intro q prime divides one
  rw [← product] at divides
  obtain ⟨factor, member, divides⟩ := (Prime.dvd_prod_iff prime.prime).1 divides
  obtain ⟨listed, fails⟩ := parts factor member
  have same := (Nat.prime_dvd_prime_iff_eq prime (primes factor listed)).1 divides
  subst same
  exact fails ((isOne (Nat.div_le_self _ _)).1 one)

def Chain (known : List Nat) : List Certificate → Prop
  | [] => True
  | c :: rest => c.Passes known ∧ Chain (c.number :: known) rest

instance : (known : List Nat) → (certificates : List Certificate) →
    Decidable (Chain known certificates)
  | _, [] => .isTrue trivial
  | known, c :: rest =>
    have := instDecidableChain (c.number :: known) rest
    inferInstanceAs (Decidable (c.Passes known ∧ Chain (c.number :: known) rest))

theorem Chain.prime {known : List Nat} {certificates : List Certificate}
    (chain : Chain known certificates) (primes : ∀ q ∈ known, q.Prime) :
    ∀ number ∈ certificates.map (·.number), number.Prime := by
  induction certificates generalizing known with
  | nil => simp
  | cons c rest ih =>
    obtain ⟨passes, chain⟩ := chain
    have first := passes.prime primes
    have others := ih chain (List.forall_mem_cons.2 ⟨first, primes⟩)
    exact List.forall_mem_cons.2 ⟨first, others⟩

def smallPrimes : List Nat :=
  [2, 3, 5, 7, 11, 17, 29, 31, 41, 59, 109, 149, 293, 461, 631, 1627, 2621, 2657, 4051, 4423, 5323,
    7723, 13441, 16699, 24809, 28181, 41201, 85831, 96557, 120233, 305873, 1627771, 4681609,
    7240687, 13331831, 44706919, 107590001]

theorem prime_of_small : ∀ q ∈ smallPrimes, q.Prime := by
  unfold smallPrimes
  norm_num

def certificates : List Certificate :=
  [⟨173378833005251801, 6, [2, 2, 2, 5, 5, 2621, 24809, 13331831]⟩,
    ⟨22149492674086928081353, 5, [173378833005251801, 2, 2, 2, 3, 5323]⟩,
    ⟨132896956044521568488119, 6, [22149492674086928081353, 2, 3]⟩,
    ⟨255515944373312847190720520512484175977, 3,
      [2, 2, 2, 7, 7, 11, 1627, 2657, 4423, 41201, 96557, 7240687, 107590001]⟩,
    ⟨205115282021455665897114700593932402728804164701536103180137503955397371, 10,
      [255515944373312847190720520512484175977, 132896956044521568488119, 2, 3, 5, 29, 29, 31,
        7723]⟩,
    ⟨prime, 3,
      [205115282021455665897114700593932402728804164701536103180137503955397371, 2, 3, 7, 13441]⟩,
    ⟨545358713, 5, [2, 2, 2, 41, 59, 28181]⟩,
    ⟨297159362677, 2, [2, 2, 3, 3, 11, 461, 1627771]⟩,
    ⟨29047611873442575647497758179, 2, [545358713, 297159362677, 2, 293, 305873]⟩,
    ⟨341948486974166000522343609283189, 2,
      [29047611873442575647497758179, 2, 2, 3, 3, 3, 109]⟩,
    ⟨174723607534414371449, 3, [2, 2, 2, 17, 59, 4051, 120233, 44706919]⟩,
    ⟨107361793816595537, 3, [2, 2, 2, 2, 16699, 85831, 4681609]⟩,
    ⟨order, 7,
      [341948486974166000522343609283189, 174723607534414371449, 107361793816595537, 2, 2, 2, 2,
        2, 2, 3, 149, 631]⟩]

theorem chain_certificates : Chain smallPrimes certificates := by
  decide +kernel

theorem prime_is_prime : Nat.Prime prime :=
  chain_certificates.prime prime_of_small prime (by simp [certificates])

theorem order_is_prime : Nat.Prime order :=
  chain_certificates.prime prime_of_small order (by simp [certificates])

end NoiseLink.Secp256k1

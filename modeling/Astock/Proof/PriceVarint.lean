import Astock.Spec.Responses
import Mathlib.Tactic

/-!
# Decoding prices

* `priceLoop_eq_none_iff`: the loop overflows exactly if it reads a tenth group.
* `priceLoop_value`: what it reads is the number that the groups stand for, modulo `2 ^ 64`.
* `price_decodes`: **`get_price` overflows exactly at the two kinds of streams that are too long or hold
  the smallest `i64` negated**, it advances and stays within the data, and it gives back what
  `encode_price` was given.
-/

namespace Astock.Tdx

variable {data rest : Bytes} {pos shift : ℕ} {result : BitVec 64}

/-! ## Groups of seven bits -/

/-- The number that groups stand for, the lowest first. -/
def groupsValue : Bytes → ℕ
  | [] => 0
  | b :: rest => b.toNat % 128 + 128 * groupsValue rest

theorem groupsValue_lt (l : Bytes) : groupsValue l < 128 ^ l.length := by
  induction l with
  | nil => exact Nat.one_pos
  | cons b l ih =>
    rw [List.length_cons, pow_succ]
    unfold groupsValue
    omega

theorem groupsValue_append (a b : Bytes) :
    groupsValue (a ++ b) = groupsValue a + 128 ^ a.length * groupsValue b := by
  induction a with
  | nil => simp [groupsValue]
  | cons x a ih =>
    rw [List.cons_append, groupsValue, groupsValue, ih, List.length_cons, pow_succ]
    ring

theorem groupsValue_eq_zero {l : Bytes} : groupsValue l = 0 ↔ ∀ b ∈ l, b.toNat % 128 = 0 := by
  induction l with
  | nil => simp [groupsValue]
  | cons b l ih =>
    rw [groupsValue, List.forall_mem_cons, ← ih]
    omega

theorem continues_iff (b : UInt8) : continues b = true ↔ 128 ≤ b.toNat := by
  have htable : ∀ i : Fin 256, continues (UInt8.ofNat i) = true ↔ 128 ≤ i.val := by decide +kernel
  have h := htable ⟨b.toNat, b.toNat_lt⟩
  rwa [UInt8.ofNat_toNat] at h

theorem low_toNat (b : UInt8) : (b &&& 0x7F).toNat = b.toNat % 128 := by
  rw [UInt8.toNat_and]
  exact Nat.and_two_pow_sub_one_eq_mod b.toNat 7

/-- A group that is put above the bits that are there is added. -/
theorem or_group (b : UInt8) (hshift : shift < 64) (hresult : result.toNat < 2 ^ shift) :
    (result ||| (b &&& 0x7F).toBitVec.setWidth 64 <<< shift).toNat =
      (result.toNat + 2 ^ shift * (b.toNat % 128)) % 2 ^ 64 := by
  have hlow : ((b &&& 0x7F).toBitVec.setWidth 64).toNat = b.toNat % 128 := by
    rw [BitVec.toNat_setWidth, UInt8.toNat_toBitVec, low_toNat]
    omega
  have hpow : 2 ^ 64 = 2 ^ shift * 2 ^ (64 - shift) := by
    rw [← pow_add]
    congr 1
    omega
  have hshifted : ((b &&& 0x7F).toBitVec.setWidth 64 <<< shift).toNat =
      2 ^ shift * (b.toNat % 128 % 2 ^ (64 - shift)) := by
    rw [BitVec.toNat_shiftLeft, hlow, Nat.shiftLeft_eq, mul_comm, hpow, Nat.mul_mod_mul_left]
  rw [BitVec.toNat_or, hshifted, Nat.or_comm, ← Nat.two_pow_add_eq_or_of_lt hresult, hpow]
  have hsum : result.toNat + 2 ^ shift * (b.toNat % 128) =
      2 ^ shift * (b.toNat % 128) + result.toNat := add_comm _ _
  rw [hsum, Nat.mod_mul, Nat.mul_add_mod, Nat.mod_eq_of_lt hresult,
    Nat.mul_add_div (Nat.two_pow_pos shift), Nat.div_eq_of_lt hresult, add_zero, add_comm]

/-! ## The loop -/

/-- The loop reads the byte at `n`: all before it say that another follows. -/
def Reaches (rest : Bytes) (n : ℕ) : Prop := n < rest.length ∧ ∀ b ∈ rest.take n, continues b

theorem reaches_cons {b : UInt8} {n : ℕ} : Reaches (b :: rest) (n + 1) ↔ continues b ∧ Reaches rest n := by
  unfold Reaches
  rw [List.length_cons, List.take_succ_cons, List.forall_mem_cons]
  constructor
  · rintro ⟨hlt, hb, hall⟩
    exact ⟨hb, by omega, hall⟩
  · rintro ⟨hb, hlt, hall⟩
    exact ⟨by omega, hb, hall⟩

/-- **The loop overflows** exactly if it reads a group whose shift is too large. -/
theorem priceLoop_eq_none_iff (n : ℕ) : ∀ {rest : Bytes} {pos shift : ℕ} {result : BitVec 64},
    64 ≤ shift + 7 * n → (n ≠ 0 → shift + 7 * (n - 1) < 64) →
    (priceLoop checked rest pos shift result = none ↔ Reaches rest n) := by
  induction n with
  | zero =>
    intro rest pos shift result hlarge _
    cases rest with
    | nil => exact iff_of_false (by simp [priceLoop]) (by simp [Reaches])
    | cons b rest =>
      have hnot : ¬ shift < 64 := by omega
      refine iff_of_true ?_ (by simp [Reaches])
      simp [priceLoop, checked, hnot]
  | succ n ih =>
    intro rest pos shift result hlarge hsmall
    have hlt : shift < 64 := by
      have := hsmall (Nat.succ_ne_zero n)
      omega
    cases rest with
    | nil => exact iff_of_false (by simp [priceLoop]) (by simp [Reaches])
    | cons b rest =>
      rw [reaches_cons, priceLoop]
      simp only [checked, if_pos hlt, Option.bind_eq_bind, Option.bind_some]
      cases hb : continues b with
      | true =>
        rw [if_pos rfl]
        refine (ih (by omega) fun hn => ?_).trans (by simp)
        have := hsmall (Nat.succ_ne_zero n)
        omega
      | false => simp

/-- What the loop reads ends with a byte that says so. -/
theorem priceLoop_some {v : BitVec 64} {next : ℕ} : ∀ {rest : Bytes} {pos shift : ℕ} {result : BitVec 64},
    priceLoop checked rest pos shift result = some (some (v, next)) →
    result.toNat < 2 ^ shift → ∃ init last more, rest = init ++ last :: more ∧
      (∀ b ∈ init, continues b) ∧ continues last = false ∧ next = pos + init.length + 1 ∧
      shift + 7 * init.length < 64 ∧
      v.toNat = (result.toNat + 2 ^ shift * groupsValue (init ++ [last])) % 2 ^ 64 := by
  intro rest
  induction rest with
  | nil =>
    intro pos shift result h _
    simp [priceLoop] at h
  | cons b rest ih =>
    intro pos shift result h hresult
    rw [priceLoop] at h
    by_cases hlt : shift < 64
    · simp only [checked, if_pos hlt, Option.bind_eq_bind, Option.bind_some] at h
      have hor := or_group b hlt hresult
      cases hb : continues b with
      | true =>
        rw [hb, if_pos rfl] at h
        have hpow : 2 ^ (shift + 7) = 2 ^ shift * 128 := by rw [pow_add]; rfl
        have hnext : (result ||| (b &&& 0x7F).toBitVec.setWidth 64 <<< shift).toNat < 2 ^ (shift + 7) := by
          rw [hor, hpow]
          refine lt_of_le_of_lt (Nat.mod_le _ _) ?_
          have hlow : 2 ^ shift * (b.toNat % 128) ≤ 2 ^ shift * 127 :=
            Nat.mul_le_mul_left _ (by omega)
          omega
        obtain ⟨init, last, more, rfl, hinit, hlast, hpos, hsmall, hvalue⟩ := ih h hnext
        refine ⟨b :: init, last, more, rfl, List.forall_mem_cons.2 ⟨hb, hinit⟩, hlast, ?_, ?_, ?_⟩
        · rw [List.length_cons]
          omega
        · rw [List.length_cons]
          omega
        · rw [hvalue, hor, Nat.mod_add_mod, List.cons_append, groupsValue, hpow]
          congr 1
          ring
      | false =>
        rw [hb, if_neg Bool.false_ne_true] at h
        cases h
        refine ⟨[], b, rest, rfl, by simp, hb, rfl, by simpa using hlt, ?_⟩
        rw [hor]
        simp [groupsValue]
    · simp [checked, hlt] at h

/-- The groups of a number are read back, whatever follows. -/
theorem priceLoop_groups {last : UInt8} (hlast : continues last = false) (more : Bytes) :
    ∀ {init : Bytes} {pos shift : ℕ} {result : BitVec 64}, (∀ b ∈ init, continues b) →
      shift + 7 * init.length < 64 → ∃ v, priceLoop checked (init ++ last :: more) pos shift result =
        some (some (v, pos + init.length + 1)) := by
  intro init
  induction init with
  | nil =>
    intro pos shift result _ hsmall
    have hlt : shift < 64 := by simpa using hsmall
    simp [priceLoop, checked, hlt, hlast]
  | cons b init ih =>
    intro pos shift result hinit hsmall
    obtain ⟨hb, hinit⟩ := List.forall_mem_cons.1 hinit
    rw [List.length_cons] at hsmall
    have hlt : shift < 64 := by omega
    obtain ⟨v, hv⟩ := @ih (pos + 1) (shift + 7)
      (result ||| (b &&& 0x7F).toBitVec.setWidth 64 <<< shift) hinit (by omega)
    refine ⟨v, ?_⟩
    rw [List.cons_append, priceLoop]
    simp only [checked, if_pos hlt, Option.bind_eq_bind, Option.bind_some, hb, if_true]
    have hnext : pos + 1 + init.length + 1 = pos + (b :: init).length + 1 := by
      rw [List.length_cons]
      omega
    rw [← hnext]
    exact hv

/-! ## Whole prices -/

/-- The stream goes on after ten bytes that all say so. -/
def TooLong (stream : Bytes) : Prop := Reaches stream 10

/-- The stream holds the smallest `i64`, to be negated. -/
def NegatesLowest (stream : Bytes) : Prop :=
  ∃ last more, stream = 0xC0 :: (List.replicate 8 0x80 ++ last :: more) ∧ last.toNat % 4 = 2 ∧
    continues last = false

theorem groups_unique {init init' more more' : Bytes} {last last' : UInt8} (hinit : ∀ b ∈ init, continues b)
    (hinit' : ∀ b ∈ init', continues b) (hlast : continues last = false)
    (hlast' : continues last' = false) (h : init ++ last :: more = init' ++ last' :: more') :
    init = init' ∧ last = last' := by
  have htake : ∀ {init more : Bytes} {last : UInt8}, (∀ b ∈ init, continues b) → continues last = false →
      (init ++ last :: more).takeWhile continues = init := by
    intro init more last hinit hlast
    rw [List.takeWhile_append_of_pos hinit, List.takeWhile_cons_of_neg (by simp [hlast]), List.append_nil]
  have hsame : init = init' := by rw [← htake hinit hlast, h, htake hinit' hlast']
  subst hsame
  exact ⟨rfl, (List.cons.inj (List.append_cancel_left h)).1⟩

theorem low_bits (first : UInt8) : ((first &&& 0x3F).toBitVec.setWidth 64).toNat = first.toNat % 64 := by
  rw [BitVec.toNat_setWidth, UInt8.toNat_toBitVec, UInt8.toNat_and]
  have hlow : first.toNat &&& (0x3F : UInt8).toNat = first.toNat % 64 := Nat.and_two_pow_sub_one_eq_mod _ 6
  rw [hlow]
  omega

theorem first_lowest {first : UInt8} (hcontinues : continues first) (hsign : first &&& 0x40 ≠ 0)
    (hlow : first.toNat % 64 = 0) : first = 0xC0 := by
  have htable : ∀ i : Fin 256, continues (UInt8.ofNat i) → UInt8.ofNat i &&& 0x40 ≠ 0 → i.val % 64 = 0 →
      UInt8.ofNat i = 0xC0 := by decide +kernel
  have h := htable ⟨first.toNat, first.toNat_lt⟩
  rw [UInt8.ofNat_toNat] at h
  exact h hcontinues hsign hlow

theorem eq_0x80 {b : UInt8} (hcontinues : continues b) (hlow : b.toNat % 128 = 0) : b = 0x80 := by
  rw [continues_iff] at hcontinues
  refine UInt8.toNat_inj.1 ?_
  have hlt := b.toNat_lt
  show b.toNat = 128
  omega

/-- The number of a long price is the smallest exactly for one kind of stream. -/
theorem negatesLowest_iff {first : UInt8} (hcontinues : continues first) {v : BitVec 64} {next : ℕ}
    (h : priceLoop checked rest pos 6 ((first &&& 0x3F).toBitVec.setWidth 64) = some (some (v, next))) :
    (first &&& 0x40 ≠ 0 ∧ v = BitVec.intMin 64) ↔ NegatesLowest (first :: rest) := by
  have hfirst := low_bits first
  obtain ⟨init, last, more, rfl, hinit, hlast, -, hlength, hvalue⟩ := priceLoop_some h (by omega)
  rw [hfirst, groupsValue_append, groupsValue, groupsValue, mul_zero, add_zero] at hvalue
  have hmin : (BitVec.intMin 64).toNat = 2 ^ 63 := rfl
  have hlow := groupsValue_lt init
  constructor
  · rintro ⟨hsign, rfl⟩
    rw [hmin] at hvalue
    have hlen : init.length = 8 := by
      by_contra hne
      have hsmall : 128 ^ init.length ≤ 128 ^ 7 := Nat.pow_le_pow_right (by norm_num) (by omega)
      have hgroup : 128 ^ init.length * (last.toNat % 128) ≤ 128 ^ 7 * 127 :=
        Nat.mul_le_mul hsmall (by omega)
      omega
    rw [hlen] at hvalue hlow
    have hzero : groupsValue init = 0 := by omega
    refine ⟨last, more, ?_, by omega, hlast⟩
    rw [first_lowest hcontinues hsign (by omega)]
    have hrep : init = List.replicate 8 0x80 := List.eq_replicate_iff.2
      ⟨hlen, fun b hb => eq_0x80 (hinit b hb) (groupsValue_eq_zero.1 hzero b hb)⟩
    rw [hrep]
  · rintro ⟨last', more', hstream, hlast4, hlast'⟩
    obtain ⟨rfl, hrest⟩ := List.cons.inj hstream
    obtain ⟨rfl, rfl⟩ := groups_unique hinit (by decide +kernel) hlast hlast' hrest
    refine ⟨by decide, BitVec.eq_of_toNat_eq ?_⟩
    have hgroups : groupsValue (List.replicate 8 0x80) = 0 := by decide
    rw [hvalue, hmin, hgroups, List.length_replicate]
    have hfirst : (0xC0 : UInt8).toNat % 64 = 0 := rfl
    omega

/-- A price of one byte. -/
theorem getPrice_short {first : UInt8} (hdata : data.drop pos = first :: rest)
    (hfirst : continues first = false) : getPrice checked data pos =
      some (if first &&& 0x40 ≠ 0 then -(first &&& 0x3F).toBitVec.setWidth 64
        else (first &&& 0x3F).toBitVec.setWidth 64, pos + 1) := by
  have hmin : (first &&& 0x3F).toBitVec.setWidth 64 ≠ BitVec.intMin 64 := by
    intro h
    have htoNat := congrArg BitVec.toNat h
    have hlow := low_bits first
    have hmin : (BitVec.intMin 64).toNat = 2 ^ 63 := rfl
    omega
  unfold getPrice
  rw [hdata]
  by_cases hsign : first &&& 0x40 = 0
  · simp [hfirst, hsign]
  · have hneg : checked.neg ((first &&& 0x3F).toBitVec.setWidth 64) =
        some (-(first &&& 0x3F).toBitVec.setWidth 64) := if_neg hmin
    simp only [hfirst, Bool.false_eq_true, if_false, ne_eq, hsign, not_false_eq_true, if_true]
    show (checked.neg ((first &&& 0x3F).toBitVec.setWidth 64)).bind _ = _
    rw [hneg]
    rfl

/-- A price of more bytes. -/
theorem getPrice_long {first : UInt8} (hdata : data.drop pos = first :: rest)
    (hfirst : continues first = true) : getPrice checked data pos =
      (priceLoop checked rest (pos + 1) 6 ((first &&& 0x3F).toBitVec.setWidth 64)).bind fun read =>
        match read with
        | none => some (0, data.length)
        | some (v, next) =>
          if first &&& 0x40 ≠ 0 ∧ v = BitVec.intMin 64 then none
          else some (if first &&& 0x40 ≠ 0 then -v else v, next) := by
  unfold getPrice
  rw [hdata]
  simp only [hfirst, if_true, Option.bind_eq_bind]
  congr 1
  funext read
  cases read with
  | none => rfl
  | some x =>
    by_cases hsign : first &&& 0x40 = 0
    · simp [hsign]
    · by_cases hmin : x.1 = BitVec.intMin 64 <;> simp [hsign, hmin, checked]

/-- **`get_price` overflows** exactly for these streams. -/
theorem getPrice_eq_none_iff (data : Bytes) (pos : ℕ) :
    getPrice checked data pos = none ↔ TooLong (data.drop pos) ∨ NegatesLowest (data.drop pos) := by
  cases hdata : data.drop pos with
  | nil =>
    refine iff_of_false ?_ (by simp [TooLong, Reaches, NegatesLowest])
    unfold getPrice
    rw [hdata]
    simp
  | cons first rest =>
    unfold TooLong
    rw [reaches_cons]
    cases hfirst : continues first with
    | false =>
      have hnot : ¬ NegatesLowest (first :: rest) := by
        rintro ⟨last, more, hstream, -, -⟩
        obtain ⟨rfl, -⟩ := List.cons.inj hstream
        exact absurd hfirst (by decide)
      rw [getPrice_short hdata hfirst]
      exact iff_of_false (by simp) (by simp [hnot])
    | true =>
      have hloop := @priceLoop_eq_none_iff 9 rest (pos + 1) 6 ((first &&& 0x3F).toBitVec.setWidth 64)
        (by omega) (by omega)
      rw [getPrice_long hdata hfirst]
      cases hread : priceLoop checked rest (pos + 1) 6 ((first &&& 0x3F).toBitVec.setWidth 64) with
      | none => exact iff_of_true rfl (.inl ⟨rfl, hloop.1 hread⟩)
      | some read =>
        have hreaches : ¬ Reaches rest 9 := fun h => by
          rw [hloop.2 h] at hread
          cases hread
        cases read with
        | none =>
          refine iff_of_false (by simp) ?_
          rintro (⟨-, h⟩ | ⟨last, more, hstream, -, hlast⟩)
          · exact hreaches h
          · -- a stream of this kind is read to its end
            obtain ⟨rfl, rfl⟩ := List.cons.inj hstream
            obtain ⟨v, hv⟩ := @priceLoop_groups last hlast more (List.replicate 8 0x80) (pos + 1) 6
              ((0xC0 &&& 0x3F : UInt8).toBitVec.setWidth 64) (by decide +kernel) (by decide)
            rw [hv] at hread
            cases hread
        | some x =>
          obtain ⟨v, next⟩ := x
          have hmin := negatesLowest_iff hfirst hread
          simp only [Option.bind_some, hreaches, and_false, false_or]
          rw [← hmin]
          split
          · rename_i h
            exact iff_of_true rfl h
          · rename_i h
            exact iff_of_false (by simp) h

/-- **The position** advances and stays within the data. -/
theorem getPrice_position {v : BitVec 64} {next : ℕ} (h : getPrice checked data pos = some (v, next)) :
    next ≤ data.length ∧ (pos < data.length → pos < next) := by
  cases hdata : data.drop pos with
  | nil =>
    unfold getPrice at h
    rw [hdata] at h
    cases h
    exact ⟨le_refl _, id⟩
  | cons first rest =>
    have hlength := congrArg List.length hdata
    rw [List.length_drop, List.length_cons] at hlength
    cases hfirst : continues first with
    | false =>
      rw [getPrice_short hdata hfirst] at h
      cases h
      omega
    | true =>
      rw [getPrice_long hdata hfirst] at h
      obtain ⟨read, hread, hval⟩ := Option.bind_eq_some_iff.1 h
      cases read with
      | none =>
        cases hval
        exact ⟨le_refl _, id⟩
      | some x =>
        have hlow := low_bits first
        obtain ⟨init, last, more, rfl, -, -, hnext, -, -⟩ := priceLoop_some hread (by omega)
        simp only at hval
        split at hval
        · cases hval
        · cases hval
          rw [List.length_append, List.length_cons] at hlength
          omega

/-! ## Encoding -/

/-- What `encode_price` writes after the first byte are the groups of the number. -/
theorem encodeGroups_spec : ∀ (mag : ℕ), mag ≠ 0 → ∃ init last, encodeGroups mag = init ++ [last] ∧
    (∀ b ∈ init, continues b) ∧ continues last = false ∧ groupsValue (init ++ [last]) = mag ∧
    128 ^ init.length ≤ mag := by
  intro mag
  induction mag using Nat.strongRecOn with
  | ind mag ih =>
    intro hmag
    have hmod : ∀ n, n < 256 → (UInt8.ofNat n).toNat = n := fun n hn => by
      rw [UInt8.toNat_ofNat']
      omega
    have hgroups : encodeGroups mag = (if mag / 128 ≠ 0 then UInt8.ofNat (mag % 128) ||| 0x80
        else UInt8.ofNat (mag % 128)) :: encodeGroups (mag / 128) := by
      rw [encodeGroups, dif_neg hmag]
    rw [hgroups]
    by_cases hlast : mag / 128 = 0
    · refine ⟨[], UInt8.ofNat (mag % 128), ?_, by simp, ?_, ?_, ?_⟩
      · rw [if_neg (by omega), hlast, encodeGroups, dif_pos rfl]
        rfl
      · rw [Bool.eq_false_iff, ne_eq, continues_iff, hmod _ (by omega)]
        omega
      · rw [List.nil_append, groupsValue, groupsValue, hmod _ (by omega)]
        omega
      · rw [List.length_nil, pow_zero]
        omega
    · obtain ⟨init, last, heq, hinit, hend, hvalue, hlarge⟩ := ih (mag / 128) (by omega) hlast
      have hbyte : (UInt8.ofNat (mag % 128) ||| 0x80).toNat = mag % 128 + 128 := by
        have htable : ∀ i : Fin 128, (UInt8.ofNat i ||| 0x80).toNat = i.val + 128 := by decide
        exact htable ⟨mag % 128, by omega⟩
      refine ⟨(UInt8.ofNat (mag % 128) ||| 0x80) :: init, last, ?_, ?_, hend, ?_, ?_⟩
      · rw [if_pos hlast, heq]
        rfl
      · refine List.forall_mem_cons.2 ⟨?_, hinit⟩
        rw [continues_iff, hbyte]
        omega
      · rw [List.cons_append, groupsValue, hvalue, hbyte]
        omega
      · rw [List.length_cons, pow_succ]
        omega

/-- The first byte has the low bits, the sign, and whether groups follow. -/
theorem firstByte_spec (low : Fin 64) (negative more : Bool) :
    let first := UInt8.ofNat low
    let first := if negative then first ||| 0x40 else first
    let first := if more then first ||| 0x80 else first
    continues first = more ∧ decide (first &&& 0x40 ≠ 0) = negative ∧ first.toNat % 64 = low := by
  revert low negative more
  decide

theorem encodePrice_eq (val : ℤ) : ∃ first, encodePrice val = first :: encodeGroups (val.natAbs / 64) ∧
    continues first = decide (val.natAbs / 64 ≠ 0) ∧ (first &&& 0x40 ≠ 0 ↔ val < 0) ∧
    first.toNat % 64 = val.natAbs % 64 := by
  obtain ⟨hmore, hsign, hlow⟩ := firstByte_spec ⟨val.natAbs % 64, by omega⟩ (decide (val < 0))
    (decide (val.natAbs / 64 ≠ 0))
  simp only [decide_eq_true_eq] at hmore hsign hlow
  refine ⟨_, rfl, hmore, ?_, hlow⟩
  rwa [decide_eq_decide] at hsign

/-- The value with its sign. -/
theorem signed_toInt {val : ℤ} {v : BitVec 64} (hv : v.toNat = val.natAbs) (hval : val.natAbs < 2 ^ 62) :
    v ≠ BitVec.intMin 64 ∧ (if val < 0 then -v else v).toInt = val := by
  have hmin : v ≠ BitVec.intMin 64 := by
    rintro rfl
    have hmin : (BitVec.intMin 64).toNat = 2 ^ 63 := rfl
    omega
  have hpos : v.toInt = val.natAbs := by
    rw [BitVec.toInt_eq_toNat_of_lt (by omega), hv]
  refine ⟨hmin, ?_⟩
  split
  · rw [BitVec.toInt_neg_of_ne_intMin hmin, hpos]
    omega
  · rw [hpos]
    omega

/-- **What was encoded is read back**, whatever stands before and after it. -/
theorem getPrice_encodePrice {val : ℤ} (hval : |val| < 2 ^ 62) (before after : Bytes) :
    ∃ x : BitVec 64, getPrice checked (before ++ encodePrice val ++ after) before.length =
      some (x, before.length + (encodePrice val).length) ∧ x.toInt = val := by
  have hmag : val.natAbs < 2 ^ 62 := by
    rw [Int.abs_eq_natAbs] at hval
    exact_mod_cast hval
  obtain ⟨first, hencode, hmore, hsign, hlow⟩ := encodePrice_eq val
  have hbits := low_bits first
  have hdata : (before ++ encodePrice val ++ after).drop before.length =
      first :: (encodeGroups (val.natAbs / 64) ++ after) := by
    rw [List.append_assoc, List.drop_left, hencode]
    rfl
  by_cases hzero : val.natAbs / 64 = 0
  · have hfirst : continues first = false := by
      rw [hmore]
      simp [hzero]
    obtain ⟨-, hint⟩ := @signed_toInt val ((first &&& 0x3F).toBitVec.setWidth 64)
      (by omega) hmag
    refine ⟨_, ?_, hint⟩
    rw [getPrice_short hdata hfirst, hencode, hzero, encodeGroups, dif_pos rfl]
    simp only [hsign]
    rfl
  · have hfirst : continues first = true := by
      rw [hmore]
      simp [hzero]
    obtain ⟨init, last, hgroups, hinit, hlast, hvalue, hlarge⟩ := encodeGroups_spec _ hzero
    have hlength : init.length < 8 := by
      by_contra hnot
      have hpow : 128 ^ 8 ≤ 128 ^ init.length := Nat.pow_le_pow_right (by norm_num) (by omega)
      omega
    obtain ⟨v, hloop⟩ := @priceLoop_groups last hlast after init (before.length + 1) 6
      ((first &&& 0x3F).toBitVec.setWidth 64) hinit (by omega)
    obtain ⟨init', last', more, hsplit, hinit', hlast', -, -, hnumber⟩ := priceLoop_some hloop (by omega)
    obtain ⟨rfl, rfl⟩ := groups_unique hinit hinit' hlast hlast' hsplit
    rw [hvalue] at hnumber
    obtain ⟨hmin, hint⟩ := @signed_toInt val v (by omega) hmag
    refine ⟨_, ?_, hint⟩
    have hrest : encodeGroups (val.natAbs / 64) ++ after = init ++ last :: after := by
      rw [hgroups, List.append_assoc]
      rfl
    rw [getPrice_long hdata hfirst, hrest, hloop, hencode, hgroups]
    simp only [Option.bind_some, hmin, and_false, if_false, hsign]
    have hnext : before.length + 1 + init.length + 1 =
        before.length + (first :: (init ++ [last])).length := by
      simp only [List.length_cons, List.length_append, List.length_nil]
      omega
    rw [hnext]

/-- **Decoding a price** is safe exactly for streams of neither kind, and gives back every number that
is small enough. -/
theorem price_decodes (data : Bytes) (pos : ℕ) (val : ℤ) (before after : Bytes) :
    ((∃ v next, getPrice checked data pos = some (v, next) ∧
        next ≤ data.length ∧ (pos < data.length → pos < next)) ↔
      ¬ TooLong (data.drop pos) ∧ ¬ NegatesLowest (data.drop pos)) ∧
    (|val| < 2 ^ 62 → ∃ x : BitVec 64, getPrice checked (before ++ encodePrice val ++ after) before.length =
      some (x, before.length + (encodePrice val).length) ∧ x.toInt = val) := by
  refine ⟨?_, fun hval => getPrice_encodePrice hval before after⟩
  have hnone := getPrice_eq_none_iff data pos
  rw [← not_or, ← hnone]
  constructor
  · rintro ⟨v, next, h, -⟩
    rw [h]
    simp
  · intro h
    obtain ⟨⟨v, next⟩, hsome⟩ := Option.ne_none_iff_exists'.1 h
    exact ⟨v, next, hsome, getPrice_position hsome⟩

theorem minus_one_decodes : ∃ x : BitVec 64, getPrice checked ([] ++ encodePrice (-1) ++ [0xFF]) 0 =
    some (x, 0 + (encodePrice (-1)).length) ∧ x.toInt = -1 :=
  (price_decodes [] 0 (-1) [] [0xFF]).2 (by decide)

/-- Eleven bytes that all say that another follows shift a group out of the 64 bits. -/
theorem long_price_overflows : ¬ ∀ (data : Bytes) (pos : ℕ), ∃ v next,
    getPrice checked data pos = some (v, next) ∧ next ≤ data.length ∧ (pos < data.length → pos < next) := by
  intro h
  obtain ⟨v, next, hsome, -⟩ := h (List.replicate 11 0x80) 0
  rw [show getPrice checked (List.replicate 11 0x80) 0 = none from by decide] at hsome
  cases hsome

end Astock.Tdx

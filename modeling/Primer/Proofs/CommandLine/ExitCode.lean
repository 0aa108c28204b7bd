import Mathlib
import Primer.CommandLine
import Primer.Proofs.Pipeline.Computation

/-!
# Exit codes

`TwosComplement.IsShortest` says which bytes an integer has: the fewest that stand for it.  They are
unique, and `TwosComplement.bytes` gives them.  Cut or filled to a width, they stand for the one
integer of that width that is congruent to the first (`TwosComplement.eq_value_truncate_iff`).

So the exit code of a program is its value modulo 2 ^ 32, as a signed number, and the status that is
left of it is the value modulo 256 (`CommandLine.exitCode_congruent_only`).
-/

namespace Primer

namespace TwosComplement

/-! ## Bytes -/

theorem toNat_lowByte (number : Int) : ((lowByte number).toNat : Int) = number % 256 := by
  have small : (number % 256).toNat < 256 := by omega
  rw [lowByte, UInt8.toNat_ofNat_of_lt' small]
  omega

/-- The low byte and the rest make up an integer. -/
theorem lowByte_add (number : Int) : (lowByte number).toNat + 256 * (number / 256) = number := by
  rw [toNat_lowByte]
  omega

theorem value_singleton (byte : UInt8) :
    value [byte] = if byte.toNat < 128 then (byte.toNat : Int) else byte.toNat - 256 :=
  rfl

theorem value_cons (byte : UInt8) {bytes : List UInt8} (more : bytes ≠ []) :
    value (byte :: bytes) = byte.toNat + 256 * value bytes := by
  rw [value]
  exact more

theorem value_singleton_bounds (byte : UInt8) : -128 ≤ value [byte] ∧ value [byte] < 128 := by
  have small : byte.toNat < 256 := byte.toNat_lt
  rw [value_singleton]
  split <;> omega

/-- The first byte is the number modulo 256, also where it holds the sign. -/
theorem value_cons_emod (byte : UInt8) (bytes : List UInt8) :
    value (byte :: bytes) % 256 = byte.toNat := by
  have small : byte.toNat < 256 := byte.toNat_lt
  cases bytes with
  | nil =>
    rw [value_singleton]
    split <;> omega
  | cons next bytes =>
    rw [value_cons byte (List.cons_ne_nil _ _)]
    omega

/-- The other bytes stand for the quotient. -/
theorem value_cons_div (byte : UInt8) {bytes : List UInt8} (more : bytes ≠ []) :
    value (byte :: bytes) / 256 = value bytes := by
  have small : byte.toNat < 256 := byte.toNat_lt
  rw [value_cons byte more]
  omega

/-- Bytes stand for the signed numbers of their width. -/
theorem value_bounds (byte : UInt8) (bytes : List UInt8) :
    -(128 * 256 ^ bytes.length) ≤ value (byte :: bytes) ∧
      value (byte :: bytes) < 128 * 256 ^ bytes.length := by
  induction bytes generalizing byte with
  | nil => exact value_singleton_bounds byte
  | cons next bytes ih =>
    have bounds := ih next
    have small : byte.toNat < 256 := byte.toNat_lt
    rw [value_cons byte (List.cons_ne_nil _ _), List.length_cons, pow_succ]
    omega

/-! ## The fewest bytes -/

/-- The bytes stand for the number, and fewer do not. -/
structure IsShortest (number : Int) (bytes : List UInt8) : Prop where
  nonempty : bytes ≠ []
  means : value bytes = number
  least : ∀ other ≠ [], value other = number → bytes.length ≤ other.length

theorem bytes_ne_nil (number : Int) : bytes number ≠ [] := by
  rw [bytes]
  split <;> exact List.cons_ne_nil _ _

theorem value_bytes (number : Int) : value (bytes number) = number := by
  fun_induction bytes number with
  | case1 number small =>
    have low := lowByte_add number
    have small' := (lowByte number).toNat_lt
    rw [value_singleton]
    split <;> omega
  | case2 number large ih =>
    rw [value_cons _ (bytes_ne_nil _), ih]
    exact lowByte_add number

theorem length_bytes_le {other : List UInt8} (nonempty : other ≠ []) :
    (bytes (value other)).length ≤ other.length := by
  induction other with
  | nil => exact absurd rfl nonempty
  | cons byte other ih =>
    cases other with
    | nil =>
      rw [bytes, if_pos (value_singleton_bounds byte)]
      exact Nat.le_refl 1
    | cons next others =>
      rw [bytes]
      split
      · exact Nat.succ_le_succ (Nat.zero_le _)
      · rw [List.length_cons, value_cons_div byte (List.cons_ne_nil _ _)]
        exact Nat.succ_le_succ (ih (List.cons_ne_nil _ _))

theorem isShortest_bytes (number : Int) : IsShortest number (bytes number) := by
  refine ⟨bytes_ne_nil number, value_bytes number, ?_⟩
  rintro other nonempty rfl
  exact length_bytes_le nonempty

/-- As many bytes stand for different numbers unless they are the same. -/
theorem eq_of_value_eq {bytes bytes' : List UInt8} (width : bytes.length = bytes'.length)
    (same : value bytes = value bytes') : bytes = bytes' := by
  induction bytes generalizing bytes' with
  | nil => exact (List.eq_nil_of_length_eq_zero width.symm).symm
  | cons byte bytes ih =>
    rcases bytes' with _ | ⟨byte', bytes'⟩
    · cases width
    have widths : bytes.length = bytes'.length := Nat.succ.inj width
    have low : byte = byte' := by
      have first := value_cons_emod byte bytes
      rw [same, value_cons_emod] at first
      exact UInt8.toNat_inj.mp (Int.ofNat_inj.mp first.symm)
    rcases bytes with _ | ⟨next, others⟩
    · rw [low, List.eq_nil_of_length_eq_zero widths.symm]
    · have more' : bytes' ≠ [] := List.ne_nil_of_length_eq_add_one widths.symm
      have quotient : value (next :: others) = value bytes' := by
        rw [← value_cons_div byte (List.cons_ne_nil _ _), same, value_cons_div byte' more']
      rw [low, ih widths quotient]

/-- An integer has one shortest list of bytes. -/
theorem isShortest_iff {number : Int} {other : List UInt8} :
    IsShortest number other ↔ other = bytes number := by
  constructor
  · intro shortest
    have least := isShortest_bytes number
    refine eq_of_value_eq (Nat.le_antisymm ?_ ?_) (shortest.means.trans least.means.symm)
    · exact shortest.least _ least.nonempty least.means
    · exact least.least _ shortest.nonempty shortest.means
  · rintro rfl
    exact isShortest_bytes number

/-! ## Truncation -/

theorem length_fill (slots bytes : List UInt8) : (fill slots bytes).length = slots.length := by
  fun_induction fill slots bytes with
  | case1 _ slots byte bytes ih => exact congrArg (· + 1) ih
  | case2 => rfl

theorem length_truncate (width : Nat) (number : Int) : (truncate width number).length = width := by
  rw [truncate, length_fill, List.length_replicate]

/-- A number that fits in a byte leaves its sign to the other slots. -/
theorem truncate_of_small (width : Nat) {number : Int} (small : -128 ≤ number ∧ number < 128) :
    truncate (width + 1) number = lowByte number :: List.replicate width (signByte number) := by
  rw [truncate, bytes, if_pos small, List.replicate_succ, fill]
  cases List.replicate width (signByte number) <;> rfl

/-- A number that does not fit leaves its quotient to the other slots. -/
theorem truncate_of_large (width : Nat) {number : Int} (large : ¬ (-128 ≤ number ∧ number < 128)) :
    truncate (width + 1) number = lowByte number :: truncate width (number / 256) := by
  have sign : number / 256 < 0 ↔ number < 0 := by omega
  rw [truncate, bytes, if_neg large, List.replicate_succ, fill, truncate]
  simp only [signByte, sign]

/-- The sign in the last byte is not seen modulo the width. -/
theorem value_cons_modEq (byte : UInt8) (bytes : List UInt8) :
    value (byte :: bytes) ≡ byte.toNat + 256 * value bytes [ZMOD 256 ^ (bytes.length + 1)] := by
  cases bytes with
  | nil =>
    have low := value_cons_emod byte []
    show value [byte] % 256 = (byte.toNat + 256 * 0) % 256
    omega
  | cons next bytes => rw [value_cons byte (List.cons_ne_nil _ _)]

/-- A byte in front of bytes that stand for the quotient. -/
theorem value_lowByte_cons {number : Int} {bytes : List UInt8} {width : Nat}
    (length : bytes.length = width) (rest : value bytes ≡ number / 256 [ZMOD 256 ^ width]) :
    value (lowByte number :: bytes) ≡ number [ZMOD 256 ^ (width + 1)] := by
  subst length
  calc value (lowByte number :: bytes)
      ≡ (lowByte number).toNat + 256 * value bytes [ZMOD 256 ^ (bytes.length + 1)] :=
        value_cons_modEq _ _
    _ ≡ (lowByte number).toNat + 256 * (number / 256) [ZMOD 256 ^ (bytes.length + 1)] := by
        rw [pow_succ']
        exact rest.mul_left'.add_left _
    _ = number := lowByte_add number

/-- Slots that repeat a sign stand for -1 or 0, which are their own quotients. -/
theorem value_replicate_signByte (width : Nat) (number : Int) :
    value (List.replicate width (signByte number)) ≡ (if number < 0 then -1 else 0)
      [ZMOD 256 ^ width] := by
  have sign : signByte number = lowByte (if number < 0 then -1 else 0) := by
    unfold signByte
    split <;> rfl
  have quotient : (if number < 0 then -1 else 0 : Int) / 256 = if number < 0 then -1 else 0 := by
    split <;> rfl
  rw [sign]
  induction width with
  | zero => exact Int.modEq_one
  | succ width ih =>
    rw [List.replicate_succ]
    refine value_lowByte_cons List.length_replicate ?_
    rw [quotient]
    exact ih

/-- What is left of a number in `width` bytes is congruent to it. -/
theorem value_truncate_modEq (width : Nat) (number : Int) :
    value (truncate width number) ≡ number [ZMOD 256 ^ width] := by
  induction width generalizing number with
  | zero => exact Int.modEq_one
  | succ width ih =>
    by_cases small : -128 ≤ number ∧ number < 128
    · rw [truncate_of_small width small]
      refine value_lowByte_cons List.length_replicate ?_
      have quotient : number / 256 = if number < 0 then -1 else 0 := by split <;> omega
      rw [quotient]
      exact value_replicate_signByte width number
    · rw [truncate_of_large width small]
      exact value_lowByte_cons (length_truncate width _) (ih (number / 256))

theorem value_truncate_bounds (width : Nat) (number : Int) :
    -(128 * 256 ^ width) ≤ value (truncate (width + 1) number) ∧
      value (truncate (width + 1) number) < 128 * 256 ^ width := by
  have length := length_truncate (width + 1) number
  cases left : truncate (width + 1) number with
  | nil =>
    rw [left] at length
    cases length
  | cons byte bytes =>
    rw [left] at length
    obtain rfl : bytes.length = width := Nat.succ.inj length
    exact value_bounds byte bytes

/-- Of all numbers that fit in as many bytes, what is left of a number is the only one congruent to
it. -/
theorem eq_value_truncate_iff (width : Nat) {number other : Int} :
    other = value (truncate (width + 1) number) ↔
      -(128 * 256 ^ width) ≤ other ∧ other < 128 * 256 ^ width ∧
        other ≡ number [ZMOD 256 ^ (width + 1)] := by
  have bounds := value_truncate_bounds width number
  have congruent := value_truncate_modEq (width + 1) number
  constructor
  · rintro rfl
    exact ⟨bounds.1, bounds.2, congruent⟩
  · rintro ⟨lower, upper, congruent'⟩
    have divides := (congruent.trans congruent'.symm).dvd
    have close : |other - value (truncate (width + 1) number)| < 256 ^ (width + 1) := by
      rw [abs_lt, pow_succ]
      omega
    exact Int.eq_of_sub_eq_zero (Int.eq_zero_of_abs_lt_dvd divides close)

end TwosComplement

namespace CommandLine

open TwosComplement

/-- Exit codes are the signed numbers of 32 bits. -/
theorem eq_exitCode_iff {value code : Int} :
    code = exitCode value ↔ -2 ^ 31 ≤ code ∧ code < 2 ^ 31 ∧ code ≡ value [ZMOD 2 ^ 32] :=
  eq_value_truncate_iff 3

/-- Eight of the 32 bits are left as the status. -/
theorem status_exitCode (value : Int) : (status (exitCode value) : Int) = value % 256 := by
  have congruent : exitCode value ≡ value [ZMOD 2 ^ 32] := (eq_exitCode_iff.mp rfl).2.2
  have low : exitCode value % 256 = value % 256 := congruent.of_dvd (Dvd.intro_left (2 ^ 24) rfl)
  rw [status, low]
  omega

/-- What the program leaves behind when it has run a source to its end. -/
theorem respond_of_value {bound : Nat} {read : Option String → Except ReadError String}
    {arguments : List String} {options : Options} {source : String} {result : RunResult}
    (accepted : Options.ofArguments arguments = .ok options)
    (interpreted : options.backend = "interpreter") (given : read options.path = .ok source)
    (ended : Environment.standard.run bound source = .value result) :
    respond bound read arguments =
      some ⟨status (exitCode result.value), String.join (result.output.map (· ++ "\n")), ""⟩ := by
  rw [respond, accepted]
  dsimp only
  rw [given, Options.respond, interpreted]
  dsimp only
  rw [ended]
  rfl

/-- The exit code of a value is the one signed number of 32 bits that is congruent to it, whatever
its size, and the status of a process that ends with the value is the value modulo 256.  The bytes
that the exit code is made from are the only shortest ones of the value. -/
theorem exitCode_congruent_only (value : Int) :
    (∀ bytes, IsShortest value bytes ↔ bytes = TwosComplement.bytes value) ∧
    (∀ code, code = exitCode value ↔
      -2 ^ 31 ≤ code ∧ code < 2 ^ 31 ∧ code ≡ value [ZMOD 2 ^ 32]) ∧
    (status (exitCode value) : Int) = value % 256 ∧
    ∀ bound read arguments options source output,
      Options.ofArguments arguments = .ok options → options.backend = "interpreter" →
      read options.path = .ok source →
      Environment.standard.run bound source = .value ⟨value, output⟩ →
      ∃ response, respond bound read arguments = some response ∧
        (response.status : Int) = value % 256 := by
  refine ⟨fun _ => isShortest_iff, fun _ => eq_exitCode_iff, status_exitCode value, ?_⟩
  intro bound read arguments options source output accepted interpreted given ended
  exact ⟨_, respond_of_value accepted interpreted given ended, status_exitCode value⟩

/-- A program whose value takes a fifth byte, but only for the sign. -/
def fiveByteValue : String :=
  "DEF main(): Integer DO RETURN 65536 * 32768 + 200; END"

/-- Without the fifth byte, the value is negative. -/
theorem exitCode_congruent_only_fiveByteValue :
    Options.ofArguments ["-b", "emitter", "-b", "interpreter", "p"] =
        .ok ⟨"interpreter", some "p"⟩ ∧
      Environment.standard.run 9 fiveByteValue = .value ⟨2147483848, []⟩ ∧
      exitCode 2147483848 = -2147483448 ∧
      ∃ response,
        respond 9 (fun _ => .ok fiveByteValue) ["-b", "emitter", "-b", "interpreter", "p"] =
          some response ∧ (response.status : Int) = 200 := by
  have accepted : Options.ofArguments ["-b", "emitter", "-b", "interpreter", "p"] =
      .ok ⟨"interpreter", some "p"⟩ := rfl
  have ended : Environment.standard.run 9 fiveByteValue = .value ⟨2147483848, []⟩ := by
    rw [Environment.run_eq_value, fiveByteValue, Environment.load_ofList]
    decide +kernel
  have truncated := exitCode_congruent_only 2147483848
  have code : -2147483448 = exitCode 2147483848 :=
    (truncated.2.1 (-2147483448)).mpr ⟨by decide, by decide, by decide⟩
  exact ⟨accepted, ended, code.symm,
    truncated.2.2.2 9 _ _ _ _ [] accepted rfl rfl ended⟩

end CommandLine

end Primer

import Mathlib.Data.List.Basic
import Mathlib.Data.Int.Notation
import Mathlib.Tactic.Ring

/-!
# Printing and reading decimal integers

Formats of `sprintf` and `sscanf` that consist of literal text and `%d`.  Where no `%d` is
followed by another one or by a digit, the text printed for some integers reads back as
these integers, and as no others.
-/

namespace CatDect.Support

/-! ## One integer -/

def printInt : ℤ → List Char
  | .ofNat n => Nat.toDigits 10 n
  | .negSucc n => '-' :: Nat.toDigits 10 (n + 1)

def scanNat (text : List Char) : Option (ℕ × List Char) :=
  match text.takeWhile Char.isDigit with
  | [] => none
  | digits => some (Nat.ofDigitChars 10 digits 0, text.dropWhile Char.isDigit)

/-- What `%d` reads, and what it leaves. -/
def scanInt : List Char → Option (ℤ × List Char)
  | '-' :: text => (scanNat text).map fun p => (-p.1, p.2)
  | text => (scanNat text).map fun p => (p.1, p.2)

def NoDigit (text : List Char) : Prop := ∀ c, text.head? = some c → c.isDigit = false

section Int

variable {text : List Char} {n : ℕ} {a : ℤ}

theorem isDigit_toDigits (n : ℕ) : ∀ c ∈ Nat.toDigits 10 n, c.isDigit = true :=
  fun _ hc => Nat.isDigit_of_mem_toDigits (by decide) (by decide) hc

theorem takeWhile_digits (n : ℕ) (h : NoDigit text) :
    (Nat.toDigits 10 n ++ text).takeWhile Char.isDigit = Nat.toDigits 10 n ∧
      (Nat.toDigits 10 n ++ text).dropWhile Char.isDigit = text := by
  have hstop : text.takeWhile Char.isDigit = [] ∧ text.dropWhile Char.isDigit = text := by
    cases text with
    | nil => exact ⟨rfl, rfl⟩
    | cons c rest =>
        have hc := h c rfl
        simp [hc]
  have hdigits := isDigit_toDigits n
  constructor
  · rw [List.takeWhile_append_of_pos hdigits, hstop.1, List.append_nil]
  · rw [List.dropWhile_append_of_pos hdigits, hstop.2]

theorem scanNat_toDigits (n : ℕ) (h : NoDigit text) :
    scanNat (Nat.toDigits 10 n ++ text) = some (n, text) := by
  obtain ⟨htake, hdrop⟩ := takeWhile_digits n h
  unfold scanNat
  rw [htake, hdrop]
  cases hdigits : Nat.toDigits 10 n with
  | nil => exact absurd hdigits Nat.toDigits_ne_nil
  | cons c digits =>
      show some (Nat.ofDigitChars 10 (c :: digits) 0, text) = some (n, text)
      rw [← hdigits, Nat.ofDigitChars_ten_toDigits]

theorem scanInt_printInt (a : ℤ) (h : NoDigit text) :
    scanInt (printInt a ++ text) = some (a, text) := by
  cases a with
  | negSucc n =>
      show (scanNat (Nat.toDigits 10 (n + 1) ++ text)).map _ = _
      rw [scanNat_toDigits _ h]
      rfl
  | ofNat n =>
      have hscan := scanNat_toDigits n h
      show scanInt (Nat.toDigits 10 n ++ text) = _
      cases hdigits : Nat.toDigits 10 n with
      | nil => exact absurd hdigits Nat.toDigits_ne_nil
      | cons c digits =>
          have hc : c.isDigit = true :=
            isDigit_toDigits n c (hdigits ▸ List.mem_cons_self)
          have hsign : c ≠ '-' := by
            intro heq
            rw [heq] at hc
            exact absurd hc (by decide)
          rw [hdigits] at hscan
          rw [List.cons_append] at hscan ⊢
          unfold scanInt
          split
          · rename_i htext
            exact absurd (List.cons.inj htext).1 hsign
          · rw [hscan]
            rfl

theorem length_printInt {k : ℕ} (hk : 0 < k) (hlow : -10 ^ k < a) (hhigh : a < 10 ^ k) :
    (printInt a).length ≤ k + 1 := by
  cases a with
  | ofNat n =>
      have hn : n < 10 ^ k := Int.ofNat_lt.mp (by simpa using hhigh)
      have hlen := (Nat.length_toDigits_le_iff (by decide) hk).mpr hn
      show (Nat.toDigits 10 n).length ≤ k + 1
      omega
  | negSucc n =>
      have hn : n + 1 < 10 ^ k := by
        rw [Int.negSucc_eq] at hlow
        exact_mod_cast neg_lt_neg_iff.mp hlow
      have hlen := (Nat.length_toDigits_le_iff (by decide) hk).mpr hn
      exact Nat.succ_le_succ hlen

end Int

/-! ## Formats -/

inductive Piece where
  | text (l : List Char)
  | int
deriving DecidableEq

/-- What `sprintf` writes; there are as many arguments as `%d`. -/
def sprintf : List Piece → List ℤ → List Char
  | [], _ => []
  | .text l :: format, args => l ++ sprintf format args
  | .int :: format, a :: args => printInt a ++ sprintf format args
  | .int :: format, [] => sprintf format []

/-- The integers that all of a text is read as. -/
def sscanf : List Piece → List Char → Option (List ℤ)
  | [], text => if text = [] then some [] else none
  | .text l :: format, text =>
      if l.isPrefixOf text then sscanf format (text.drop l.length) else none
  | .int :: format, text => do
      let (a, rest) ← scanInt text
      let args ← sscanf format rest
      some (a :: args)

def arity (format : List Piece) : ℕ := format.count .int

/-- Each `%d` ends the format or is followed by text that does not start with a digit. -/
def Separated : List Piece → Prop
  | [] => True
  | .text _ :: format => Separated format
  | .int :: [] => True
  | .int :: .text (c :: _) :: format => c.isDigit = false ∧ Separated format
  | .int :: .text [] :: _ => False
  | .int :: .int :: _ => False

def literal : List Piece → List Char
  | [] => []
  | .text l :: format => l ++ literal format
  | .int :: format => literal format

section Formats

variable {format : List Piece} {args : List ℤ}

theorem Separated.noDigit (h : Separated (.int :: format)) (args : List ℤ) :
    NoDigit (sprintf format args) ∧ Separated format := by
  match format, h with
  | [], _ => exact ⟨fun c hc => absurd hc (by simp [sprintf]), trivial⟩
  | .text (c :: l) :: rest, ⟨hc, hrest⟩ =>
      refine ⟨?_, hrest⟩
      intro c' hc'
      obtain rfl : c = c' := Option.some.inj hc'
      exact hc

/-- **What is printed reads back.** -/
theorem sscanf_sprintf (hformat : Separated format) (hargs : args.length = arity format) :
    sscanf format (sprintf format args) = some args := by
  induction format generalizing args with
  | nil =>
      obtain rfl := List.eq_nil_of_length_eq_zero hargs
      rfl
  | cons piece format ih =>
      cases piece with
      | text l =>
          have hprefix : l.isPrefixOf (l ++ sprintf format args) = true := by
            rw [List.isPrefixOf_iff_prefix]
            exact List.prefix_append l _
          have hargs' : args.length = arity format := by
            simpa [arity] using hargs
          rw [sprintf, sscanf, if_pos hprefix, List.drop_left]
          exact ih hformat hargs'
      | int =>
          cases args with
          | nil => simp [arity] at hargs
          | cons a args =>
              obtain ⟨hnext, hrest⟩ := hformat.noDigit args
              have hargs' : args.length = arity format := by
                simpa [arity] using hargs
              rw [sprintf, sscanf, scanInt_printInt a hnext]
              simp only [Option.bind_eq_bind, Option.bind_some, ih hrest hargs']

theorem length_sprintf {k : ℕ} (hk : 0 < k) (h : ∀ a ∈ args, -10 ^ k < a ∧ a < 10 ^ k)
    (hargs : args.length = arity format) :
    (sprintf format args).length ≤ (literal format).length + arity format * (k + 1) := by
  induction format generalizing args with
  | nil => exact Nat.zero_le _
  | cons piece format ih =>
      cases piece with
      | text l =>
          have hargs' : args.length = arity format := by
            simpa [arity] using hargs
          have hrest := ih h hargs'
          have harity : arity (.text l :: format) = arity format := by simp [arity]
          rw [sprintf, literal, List.length_append, List.length_append, harity]
          omega
      | int =>
          cases args with
          | nil => simp [arity] at hargs
          | cons a args =>
              have hargs' : args.length = arity format := by
                simpa [arity] using hargs
              have hrest := ih (fun b hb => h b (List.mem_cons_of_mem _ hb)) hargs'
              obtain ⟨hlow, hhigh⟩ := h a List.mem_cons_self
              have ha := length_printInt hk hlow hhigh
              have harity : arity (.int :: format) = arity format + 1 := by simp [arity]
              rw [sprintf, literal, List.length_append, harity, Nat.add_mul, Nat.one_mul]
              omega

theorem mem_sprintf {c : Char} (hc : c ∈ sprintf format args) :
    c ∈ literal format ∨ c = '-' ∨ c.isDigit = true := by
  induction format generalizing args with
  | nil => exact absurd hc List.not_mem_nil
  | cons piece format ih =>
      cases piece with
      | text l =>
          rcases List.mem_append.mp hc with hl | hrest
          · exact .inl (List.mem_append_left _ hl)
          · exact (ih hrest).imp (List.mem_append_right _) id
      | int =>
          cases args with
          | nil => exact ih hc
          | cons a args =>
              rcases List.mem_append.mp hc with ha | hrest
              · cases a with
                | ofNat n => exact .inr (.inr (isDigit_toDigits n c ha))
                | negSucc n =>
                    rcases List.mem_cons.mp ha with hsign | hdigit
                    · exact .inr (.inl hsign)
                    · exact .inr (.inr (isDigit_toDigits (n + 1) c hdigit))
              · exact ih hrest

end Formats

end CatDect.Support

import ClusterGate.Json.Printer
import ClusterGate.Json.Reader
import ClusterGate.Proofs.Text.Numeral
import Mathlib.Tactic.SplitIfs

/-!
# Tokens are read back

Blanks, whole numbers of 64 bits and strings are read as they were written, whatever follows them.
-/

namespace ClusterGate.Json

open Text

variable {c : Char} {cs rest : List Char}

/-! ### Blanks -/

theorem skipSpace_of_not (h : isSpace c = false) : skipSpace (c :: cs) = c :: cs :=
  List.dropWhile_cons_of_neg (by simp [h])

theorem skipSpace_breakLine (depth : Nat) : skipSpace (breakLine depth ++ cs) = skipSpace cs := by
  have hblank : ∀ c ∈ breakLine depth, isSpace c = true := by
    intro c hc
    rcases List.mem_cons.mp hc with rfl | hc
    · rfl
    · rw [List.eq_of_mem_replicate hc]
      rfl
  exact List.dropWhile_append_of_pos hblank

/-! ### Whole numbers -/

/-- The text ends here, or goes on with a comma or a line break. -/
def Delimited (rest : List Char) : Prop := ∀ c ∈ rest.head?, c = ',' ∨ c = '\n'

theorem delimited_nil : Delimited [] := fun _ h => by cases h

theorem delimited_comma : Delimited (',' :: rest) := fun _ h => Or.inl (Option.some.inj h).symm

theorem delimited_breakLine (depth : Nat) : Delimited (breakLine depth ++ rest) :=
  fun _ h => Or.inr (Option.some.inj h).symm

theorem Delimited.not_isDigit (h : Delimited (c :: rest)) : isDigit c = false := by
  rcases h c rfl with rfl | rfl
  · decide
  · decide

theorem someDigits_append {digits : List Char} (hne : digits ≠ [])
    (hdigits : digits.all isDigit = true) (hrest : Delimited rest) :
    someDigits (digits ++ rest) = some (digits, rest) := by
  have hnone : rest.takeWhile isDigit = [] ∧ rest.dropWhile isDigit = rest := by
    cases rest with
    | nil => exact ⟨rfl, rfl⟩
    | cons c rest => simp [hrest.not_isDigit]
  have hall := List.all_eq_true.mp hdigits
  unfold someDigits
  rw [List.takeWhile_append_of_pos hall, List.dropWhile_append_of_pos hall, hnone.1, hnone.2,
    List.append_nil]
  cases digits with
  | nil => contradiction
  | cons d digits => rfl

theorem readExponent_of_delimited (h : Delimited rest) : readExponent rest = some (none, rest) := by
  cases rest with
  | nil => rfl
  | cons c rest =>
    rcases h c rfl with rfl | rfl
    · rfl
    · rfl

theorem readFraction_of_delimited (h : Delimited rest) : readFraction rest = some (none, rest) := by
  unfold readFraction
  split
  next r =>
    rcases h '.' rfl with hpoint | hpoint
    · cases hpoint
    · cases hpoint
  next => rfl

theorem readMagnitude_toDigits (negative : Bool) (n : Nat) (h : Delimited rest) :
    readMagnitude negative (Nat.toDigits 10 n ++ rest) =
      some (⟨negative, Nat.toDigits 10 n, none, none⟩, rest) := by
  -- a number with a leading zero would be refused
  have hhead : ¬((Nat.toDigits 10 n).head? = some '0' ∧ Nat.toDigits 10 n ≠ ['0']) := by
    rintro ⟨hzero, hne⟩
    rcases Nat.eq_zero_or_pos n with rfl | hpos
    · exact hne rfl
    · exact head?_toDigits_ne_zero hpos hzero
  unfold readMagnitude
  rw [someDigits_append Nat.toDigits_ne_nil (toDigits_all_isDigit n) h]
  simp only [Option.bind_eq_bind, Option.bind_some, if_neg hhead, readFraction_of_delimited h,
    readExponent_of_delimited h]
  rfl

/-- A whole number of 64 bits, with or without sign. -/
def IsWord (n : Int) : Prop := -(maxWord / 2 + 1 : Nat) ≤ n ∧ n ≤ maxWord

theorem read_toDigits {n : Nat} (h : n ≤ maxWord) :
    Literal.read ⟨false, Nat.toDigits 10 n, none, none⟩ = .int n := by
  simp [Literal.read, digitsValue_toDigits, h]

theorem read_neg_toDigits {n : Nat} (hpos : 0 < n) (h : n ≤ maxWord / 2 + 1) :
    Literal.read ⟨true, Nat.toDigits 10 n, none, none⟩ = .int (-n) := by
  simp [Literal.read, digitsValue_toDigits, hpos, h]

theorem head_toDigits (n : Nat) :
    ∃ d ds, Nat.toDigits 10 n = d :: ds ∧ isDigit d = true := by
  obtain ⟨d, ds, hdigits⟩ := List.exists_cons_of_ne_nil (Nat.toDigits_ne_nil (n := n) (b := 10))
  have hall := List.all_eq_true.mp (toDigits_all_isDigit n) d
  rw [hdigits] at hall
  exact ⟨d, ds, hdigits, hall List.mem_cons_self⟩

theorem readNumber_of_isDigit (h : isDigit c = true) :
    readNumber (c :: cs) = readMagnitude false (c :: cs) := by
  unfold readNumber
  split
  next heq =>
    obtain ⟨rfl, _⟩ := List.cons.inj heq
    cases h
  next => rfl

theorem readNumber_writeInt {n : Int} (h : IsWord n) (hrest : Delimited rest) :
    (readNumber (writeInt n ++ rest)).map (fun (l, rest) => (l.read, rest)) =
      some (.int n, rest) := by
  unfold writeInt
  split
  next hneg =>
    have hword : n.natAbs ≤ maxWord / 2 + 1 := by
      have := h.1
      omega
    have hvalue : -(n.natAbs : Int) = n := by omega
    have hread := readMagnitude_toDigits true n.natAbs hrest
    have hliteral := read_neg_toDigits (by omega) hword
    rw [hvalue] at hliteral
    rw [List.cons_append, readNumber, hread]
    simp only [Option.map_some, hliteral]
  next hneg =>
    have hword : n.natAbs ≤ maxWord := by
      have := h.2
      omega
    obtain ⟨d, ds, hdigits, hd⟩ := head_toDigits n.natAbs
    have hread := readMagnitude_toDigits false n.natAbs hrest
    rw [hdigits, List.cons_append] at hread ⊢
    have hvalue : (n.natAbs : Int) = n := by omega
    have hliteral := read_toDigits hword
    rw [hvalue, hdigits] at hliteral
    rw [readNumber_of_isDigit hd, hread]
    simp only [Option.map_some, hliteral]

/-! ### Strings -/

theorem hexValue?_smallHex : ∀ d < 16, hexValue? (smallHex d) = some d := by decide

/-- The piece that a written character is read as. -/
def pieceOf (c : Char) : Piece :=
  if c.toNat < 0x20 ∧ c ≠ '\x08' ∧ c ≠ '\x0c' ∧ c ≠ '\n' ∧ c ≠ '\r' ∧ c ≠ '\t'
  then .unit c.toNat else .char c

theorem pieceOf_eq_char (h : 0x20 ≤ c.toNat) : pieceOf c = .char c :=
  if_neg fun hunit => absurd hunit.1 (Nat.not_lt.mpr h)

theorem pieces_escaped {e : Char} (h : escaped? e = some c) :
    pieces ('\\' :: e :: cs) = (pieces cs).map fun (ps, rest) => (.char c :: ps, rest) := by
  have hu : e ≠ 'u' := by
    rintro rfl
    cases h
  rw [pieces.eq_def]
  split
  next heq => cases heq
  next heq => cases heq
  next heq =>
    cases heq
    exact absurd rfl hu
  next heq =>
    cases heq
    rw [h]
    cases pieces cs <;> rfl
  next hother heq =>
    cases heq
    exact absurd rfl (hother e cs rfl)

theorem pieces_unit (h : c.toNat < 0x20) :
    pieces ('\\' :: 'u' :: '0' :: '0' :: smallHex (c.toNat / 16) :: smallHex (c.toNat % 16) :: cs) =
      (pieces cs).map fun (ps, rest) => (.unit c.toNat :: ps, rest) := by
  have hhex : fourHex? '0' '0' (smallHex (c.toNat / 16)) (smallHex (c.toNat % 16)) =
      some c.toNat := by
    have hzero : hexValue? '0' = some 0 := by decide
    have hvalue : 4096 * 0 + 256 * 0 + 16 * (c.toNat / 16) + c.toNat % 16 = c.toNat := by omega
    rw [fourHex?, hzero, hexValue?_smallHex _ (by omega), hexValue?_smallHex _ (by omega)]
    exact congrArg some hvalue
  rw [pieces, hhex]
  cases pieces cs <;> rfl

theorem pieces_plain (hlow : 0x20 ≤ c.toNat) (hquote : c ≠ '"') (hslash : c ≠ '\\') :
    pieces (c :: cs) = (pieces cs).map fun (ps, rest) => (.char c :: ps, rest) := by
  rw [pieces.eq_def]
  split
  next heq => cases heq
  next heq =>
    cases heq
    exact absurd rfl hquote
  next heq =>
    cases heq
    exact absurd rfl hslash
  next heq =>
    cases heq
    exact absurd rfl hslash
  next heq =>
    cases heq
    rw [if_neg (by simp [hslash, hlow])]
    cases pieces cs <;> rfl

theorem pieces_writeChar (c : Char) (cs : List Char) :
    pieces (writeChar c ++ cs) = (pieces cs).map fun (ps, rest) => (pieceOf c :: ps, rest) := by
  unfold writeChar
  split_ifs with hquote h8 h12 hn hr ht hcontrol
  · rcases hquote with rfl | rfl
    · exact pieces_escaped rfl
    · exact pieces_escaped rfl
  · exact h8 ▸ pieces_escaped (e := 'b') rfl
  · exact h12 ▸ pieces_escaped (e := 'f') rfl
  · exact hn ▸ pieces_escaped (e := 'n') rfl
  · exact hr ▸ pieces_escaped (e := 'r') rfl
  · exact ht ▸ pieces_escaped (e := 't') rfl
  · rw [pieceOf, if_pos ⟨hcontrol, h8, h12, hn, hr, ht⟩]
    exact pieces_unit hcontrol
  · have hlow := Nat.le_of_not_lt hcontrol
    rw [pieceOf_eq_char hlow]
    exact pieces_plain hlow (fun h => hquote (Or.inl h)) fun h => hquote (Or.inr h)

theorem joinPieces_pieceOf (cs : List Char) :
    joinPieces (fun c => [c]) (fun c => [c]) (cs.map pieceOf) = some cs := by
  induction cs with
  | nil => rfl
  | cons c cs ih =>
    rw [List.map_cons, pieceOf]
    split
    next h =>
      have hlt := h.1
      rw [joinPieces.eq_def]
      simp only
      rw [if_pos (Or.inl (by omega)), ih, Char.ofNat_toNat]
      rfl
    next =>
      rw [joinPieces, ih]
      rfl

theorem pieces_written (cs rest : List Char) :
    pieces (cs.flatMap writeChar ++ '"' :: rest) = some (cs.map pieceOf, rest) := by
  induction cs with
  | nil => simp [pieces]
  | cons c cs ih =>
    rw [List.flatMap_cons, List.append_assoc, pieces_writeChar, ih]
    rfl

theorem readString_written (s : String) (rest : List Char) :
    readString ofSigns (s.toList.flatMap writeChar ++ '"' :: rest) = some (some s, rest) := by
  rw [readString, pieces_written]
  simp [ofSigns, joinPieces_pieceOf]

end ClusterGate.Json

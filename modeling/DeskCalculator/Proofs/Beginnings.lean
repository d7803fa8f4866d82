import DeskCalculator.Proofs.Lexemes
import DeskCalculator.Proofs.Overflow

namespace DeskCalculator

/-!
# The lexemes of a beginning

A text that splits into lexemes is cut off somewhere.  What was the longest
lexeme at its place still is, as long as the cut is not inside of it, because
fewer characters follow.  A cut inside of a lexeme leaves a shorter number, a
shorter name or a single star, or else only the point of a number without
digits before it, and this is the one beginning that does not split.
-/

/-- The token that is left of another one where it is cut off. -/
inductive Token.CutOff : (whole left : Token) -> Prop
  | number (value shorter : Float) : CutOff (.number value) (.number shorter)
  | identifier (name shorter : String) : CutOff (.identifier name) (.identifier shorter)
  | power : CutOff (.operator .power) (.operator .multiply)

theorem Token.CutOff.goesOn {whole left : Token} (cutOff : whole.CutOff left) :
    whole ≠ .endOfInput ∧ left ≠ .endOfInput := by
  cases cutOff <;> exact ⟨nofun, nofun⟩

/-- The lexemes are the first ones of others, except that the last may be cut
off. -/
inductive Begun : (begun whole : List Lexeme) -> Prop
  | nothing (whole : List Lexeme) : Begun [] whole
  | inside {token left : Token} (position : Nat) (later : List Lexeme) :
      token.CutOff left -> Begun [⟨left, position⟩] (⟨token, position⟩ :: later)
  | lexeme {begun later : List Lexeme} (lexeme : Lexeme) :
      Begun begun later -> Begun (lexeme :: begun) (lexeme :: later)

/-! ## Cutting off a lexeme -/

theorem HaltsAt.cutOff {kind : Char -> Bool} {first rest : List Char}
    (halts : HaltsAt kind (first ++ rest)) : HaltsAt kind first := by
  intro next found
  apply halts next
  rw [List.head?_append, Option.mem_def.mp found]
  rfl

/-- A number with a point is cut off up to the point or after it. -/
theorem cutOff_decimal {digits fraction start tail : List Char}
    (cut : digits ++ '.' :: fraction = start ++ tail) :
    (Exists fun more : List Char => digits = start ++ more) ∨
      Exists fun decimals : List Char =>
        start = digits ++ '.' :: decimals ∧ fraction = decimals ++ tail := by
  rcases List.append_eq_append_iff.mp cut with ⟨before, rfl, shape⟩ | ⟨more, same, _⟩
  · cases before with
    | nil => exact .inl ⟨[], by simp⟩
    | cons point decimals =>
        rw [List.cons_append] at shape
        rcases List.cons.inj shape with ⟨rfl, same⟩
        exact .inr ⟨decimals, rfl, same⟩
  · exact .inl ⟨more, same⟩

namespace Begins

variable {piece rest more start tail : List Char} {token : Token}

/-- A lexeme stays the longest one where fewer characters follow it. -/
theorem cutOff_after (begins : Begins piece (rest ++ more) token) : Begins piece rest token := by
  cases begins with
  | whole nonempty inside halts finite => exact .whole nonempty inside halts.cutOff finite
  | decimal nonempty inside halts finite => exact .decimal nonempty inside halts.cutOff finite
  | name nonempty inside halts => exact .name nonempty inside halts.cutOff
  | symbol found single => exact .symbol found fun star => (single star).cutOff
  | power => exact .power

/-- What is left of a lexeme is a lexeme unless it is a point alone. -/
theorem cutOff_inside (begins : Begins piece rest token) (cut : piece = start ++ tail)
    (nonempty : start ≠ []) (missing : tail ≠ []) :
    start = ['.'] ∨ Exists fun left : Token => token.CutOff left ∧ Begins start [] left := by
  have wholeDigits {digits fraction : List Char}
      (inside : forall digit, digit ∈ start ++ digits -> digit.isDigit = true)
      (finite : (Numeral.ofDigitChars (start ++ digits) fraction).toFloat.isFinite = true) :
      Begins start [] (.number (Numeral.ofDigitChars start []).toFloat) :=
    .whole nonempty (fun digit member => inside digit (List.mem_append_left _ member)) nofun
      (Numeral.isFinite_of_whole finite)
  cases begins with
  | whole _ inside _ finite =>
      subst cut
      exact .inr ⟨_, .number _ _, wholeDigits inside finite⟩
  | @decimal digits fraction _ _ inside _ finite =>
      rcases cutOff_decimal cut with ⟨more, rfl⟩ | ⟨decimals, rfl, rfl⟩
      · refine .inr ⟨_, .number _ _, wholeDigits (fun digit member => ?_) finite⟩
        exact inside digit (List.mem_append_left _ member)
      · by_cases alone : digits = [] ∧ decimals = []
        · rcases alone with ⟨rfl, rfl⟩
          exact .inl rfl
        · refine .inr ⟨_, .number _ _, .decimal (Classical.not_and_iff_not_or_not.mp alone)
            (fun digit member => ?_) nofun (Numeral.isFinite_of_fraction finite)⟩
          rw [← List.append_assoc] at inside
          exact inside digit (List.mem_append_left _ member)
  | name _ inside _ =>
      subst cut
      exact .inr ⟨_, .identifier _ _, .name nonempty
        (fun letter member => inside letter (List.mem_append_left _ member)) nofun⟩
  | symbol _ _ =>
      rcases List.append_eq_singleton_iff.mp cut.symm with ⟨empty, _⟩ | ⟨_, empty⟩
      · exact absurd empty nonempty
      · exact absurd empty missing
  | power =>
      rcases List.append_eq_cons_iff.mp cut.symm with ⟨empty, _⟩ | ⟨stars, rfl, last⟩
      · exact absurd empty nonempty
      · rcases List.append_eq_singleton_iff.mp last.symm with ⟨rfl, _⟩ | ⟨_, empty⟩
        · exact .inr ⟨_, .power, .symbol rfl fun _ => nofun⟩
        · exact absurd empty missing

end Begins

/-! ## Cutting off a text -/

/-- A lexeme with nothing after it is a text. -/
theorem Begins.splits {piece : List Char} {token : Token} (begins : Begins piece [] token)
    (position : Nat) :
    Splits position piece
      [⟨token, position⟩, ⟨.endOfInput, position + byteCount piece⟩] := by
  have splits := Splits.lexeme begins (.nothing (position + byteCount piece))
  rw [List.append_nil] at splits
  exact splits

/-- A beginning splits into the first lexemes of the text, unless it ends with
the point of a number without digits before it. -/
theorem Splits.cutOff {position : Nat} {characters : List Char} {lexemes : List Lexeme}
    (splits : Splits position characters lexemes) {beginning remainder : List Char}
    (cut : characters = beginning ++ remainder) :
    (Exists fun begun : List Lexeme => Exists fun final : Nat =>
      Begun begun lexemes ∧ Splits position beginning (begun ++ [⟨.endOfInput, final⟩])) ∨
    Exists fun before : List Char => beginning = before ++ ['.'] ∧
      scan 0 position beginning =
        .error (.unexpectedCharacter '.' (position + byteCount before)) := by
  induction splits generalizing beginning with
  | nothing position =>
      rcases List.append_eq_nil_iff.mp cut.symm with ⟨rfl, _⟩
      exact .inl ⟨[], position, .nothing _, .nothing position⟩
  | @blank position character rest lexemes skipped _ ih =>
      cases beginning with
      | nil => exact .inl ⟨[], position, .nothing _, .nothing position⟩
      | cons first beginning =>
          rcases List.cons.inj cut with ⟨rfl, cutRest⟩
          rcases ih cutRest with ⟨begun, final, first, splits⟩ | ⟨before, rfl, failed⟩
          · exact .inl ⟨begun, final, first, .blank skipped splits⟩
          · refine .inr ⟨character :: before, rfl, ?_⟩
            rw [scan_blank skipped, failed]
            simp [byteCount, Nat.add_assoc]
  | @lexeme position piece rest token lexemes begins _ ih =>
      rcases List.append_eq_append_iff.mp cut with ⟨after, rfl, shape⟩ | ⟨tail, shape, _⟩
      · subst shape
        have complete := begins.cutOff_after
        rcases ih rfl with ⟨begun, final, first, splits⟩ | ⟨before, rfl, failed⟩
        · exact .inl ⟨⟨token, position⟩ :: begun, final, .lexeme _ first, .lexeme complete splits⟩
        · refine .inr ⟨piece ++ before, by simp, ?_⟩
          rw [scan_lexeme complete, failed]
          simp [byteCount, Nat.add_assoc, Except.map]
      · by_cases empty : beginning = []
        · subst empty
          exact .inl ⟨[], position, .nothing _, .nothing position⟩
        · cases tail with
          | nil =>
              rw [List.append_nil] at shape
              subst shape
              have complete := @Begins.cutOff_after piece [] rest token begins
              exact .inl ⟨[_], _, .lexeme _ (.nothing _), complete.splits position⟩
          | cons next tail =>
              rcases begins.cutOff_inside shape empty (List.cons_ne_nil _ _) with
                rfl | ⟨left, cutOff, shorter⟩
              · exact .inr ⟨[], rfl, rfl⟩
              · exact .inl ⟨[_], _, .inside _ _ cutOff, shorter.splits position⟩

end DeskCalculator

import DeskCalculator.Proofs.Grammar.Completeness

namespace DeskCalculator

/-!
# The reader accepts the grammar

Soundness and completeness together: what is read up to the end of the input is
exactly what the grammar derives within the limit, and what the grammar derives
beyond the limit fails for its depth alone.  The two bounds of the limit are
independent of each other: one is on the descents of the derivation, the other
on the height of the tree.
-/

/-- No lexemes have two trees.  Under a limit that allows both derivations the
reader returns both trees. -/
theorem Derives.tree_unique {lexemes : List Lexeme} {first second : Expr}
    {descents more : Nat} (firstDerived : Derives .expression lexemes first descents)
    (secondDerived : Derives .expression lexemes second more) : first = second := by
  let limit := max (max descents more) (max first.height second.height) + 1
  have positive : 1 ≤ limit := Nat.le_add_left _ _
  have readsFirst := (firstDerived.ofLexemes_within positive 0 []).1 (by omega)
  have readsSecond := (secondDerived.ofLexemes_within positive 0 []).1 (by omega)
  exact Except.ok.inj (readsFirst.symm.trans readsSecond)

/-- Reading is deciding the grammar: lexemes have a tree exactly if those before
the first end of the input derive it within the limit, a derivation that
exceeds the limit is refused as too deep, and there is never a second tree. -/
theorem ofLexemes_decides_grammar (limit : Nat) (positive : 1 ≤ limit)
    (lexemes : List Lexeme) :
    (forall tree : Expr, Expr.ofLexemes limit lexemes = .ok tree ↔
      Exists fun stretch : List Lexeme => Exists fun position : Nat =>
        Exists fun rest : List Lexeme => Exists fun descents : Nat =>
          lexemes = stretch ++ ⟨.endOfInput, position⟩ :: rest ∧
            (forall lexeme, lexeme ∈ stretch -> lexeme.token ≠ .endOfInput) ∧
            Derives .expression stretch tree descents ∧ descents ≤ limit ∧
            tree.height ≤ limit) ∧
    (forall (stretch : List Lexeme) (position : Nat) (rest : List Lexeme) (tree : Expr)
        (descents : Nat),
      lexemes = stretch ++ ⟨.endOfInput, position⟩ :: rest ->
        (forall lexeme, lexeme ∈ stretch -> lexeme.token ≠ .endOfInput) ->
        Derives .expression stretch tree descents ->
        (limit < descents ∨ limit < tree.height) ->
        Exists fun place : Nat =>
          Expr.ofLexemes limit lexemes = .error (.tooDeep limit place)) ∧
    (forall (stretch : List Lexeme) (first second : Expr) (descents more : Nat),
      Derives .expression stretch first descents -> Derives .expression stretch second more ->
        first = second) := by
  refine ⟨fun tree => ⟨fun read => ?_, ?_⟩, ?_, ?_⟩
  · rcases Expr.ofLexemes_derives read with
      ⟨stretch, position, rest, descents, split, inside, derived, room, low⟩
    exact ⟨stretch, position, rest, descents, split, inside, derived, room, by omega⟩
  · rintro ⟨stretch, position, rest, descents, rfl, inside, derived, room, low⟩
    exact (derived.ofLexemes_within positive position rest).1 ⟨room, low⟩
  · rintro stretch position rest tree descents rfl inside derived exceeded
    exact (derived.ofLexemes_within positive position rest).2 (by omega)
  · intro stretch first second descents more firstDerived secondDerived
    exact firstDerived.tree_unique secondDerived

/-- A sign may stand on the right of a power, where it binds first; the power
and the sign are two descents. -/
theorem ofLexemes_decides_signed_power :
    1 ≤ 3 ∧
    Expr.ofLexemes 3
      [⟨.number 2, 0⟩, ⟨.operator .power, 1⟩, ⟨.operator .subtract, 3⟩, ⟨.number 1, 4⟩,
        ⟨.endOfInput, 5⟩] =
      .ok (.binary .power (.literal 2) (.signed .minus (.literal 1))) ∧
    Exists fun place : Nat => Expr.ofLexemes 1
      [⟨.number 2, 0⟩, ⟨.operator .power, 1⟩, ⟨.operator .subtract, 3⟩, ⟨.number 1, 4⟩,
        ⟨.endOfInput, 5⟩] = .error (.tooDeep 1 place) := by
  have sign : Derives .unary [⟨.operator .subtract, 3⟩, ⟨.number 1, 4⟩]
      (.signed .minus (.literal 1)) 1 :=
    .signed 3 rfl ((Derives.number 1 4).loosen (by decide))
  have power := Derives.binary .power 1 ((Derives.number 2 0).loosen (by decide))
    (sign.loosen (by decide))
  have whole := power.loosen (show Category.power.rank ≤ Category.expression.rank by decide)
  have inside : forall lexeme : Lexeme,
      lexeme ∈ [⟨.number 2, 0⟩] ++ ⟨.operator .power, 1⟩ ::
        [⟨.operator .subtract, 3⟩, ⟨.number 1, 4⟩] -> lexeme.token ≠ .endOfInput := by
    simp
  have positive : 1 ≤ 3 := by decide
  refine ⟨positive, ?_, ?_⟩
  · exact ((ofLexemes_decides_grammar 3 positive _).1 _).mpr
      ⟨_, 5, [], 2, rfl, inside, whole, by decide, by decide⟩
  · exact (ofLexemes_decides_grammar 1 (Nat.le_refl 1) _).2.1 _ 5 [] _ 2 rfl inside whole
      (.inl (by decide))

end DeskCalculator

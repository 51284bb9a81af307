import RegularWords.Enumeration.Walk

/-!
The words of an expression, pulled one at a time.

A pull steps a walk until it gives a word or is exhausted.  Every fresh walk inside an odometer or a
repetition gives a word before it is exhausted, so a pull ends, unless a union without alternatives
stands behind an infinite factor: then the odometer turns for ever.
-/

namespace RegularWords

structure Pull where
  word : Option Word
  levels : List LevelStart
  walk : Walk

/-- A pull under way: the levels started so far, latest first, and where the walk stands. -/
structure Pulling where
  levels : List LevelStart
  walk : Walk

def Pulling.advance : Pulling → Id (Pulling ⊕ Pull)
  | { levels, walk } =>
      match walk.step with
      | (.word word, walk) =>
          pure (.inr { word := some word, levels := levels.reverse, walk := walk })
      | (.exhausted, walk) =>
          pure (.inr { word := none, levels := levels.reverse, walk := walk })
      | (.working, walk) => pure (.inl { levels := levels, walk := walk })
      | (.levelStarted level, walk) => pure (.inl { levels := level :: levels, walk := walk })

instance : Nonempty Pull :=
  ⟨{ word := none, levels := [], walk := .single none }⟩

structure Words where
  walk : Walk

def Expr.words (expr : Expr) : Words :=
  { walk := Walk.start expr }

namespace Words

def pull : Words → Pull
  | { walk } => (repeatM Pulling.advance { levels := [], walk := walk }).run

def next (words : Words) : Option Word × Words :=
  let pull := pull words
  (pull.word, { walk := pull.walk })

/-- Pulls a number of times, or until there is no word left.  Words and started levels come latest
first behind those already there. -/
def collect (words : List Word) (levels : List LevelStart) :
    Nat → Words → List Word × List LevelStart × Words
  | 0, rest => (words, levels, rest)
  | number + 1, rest =>
      let pull := pull rest
      let rest := { walk := pull.walk }
      match pull.word with
      | none => (words, pull.levels.reverse ++ levels, rest)
      | some word => collect (word :: words) (pull.levels.reverse ++ levels) number rest

def take (number : Nat) (words : Words) : List Word × Words :=
  let (taken, _, rest) := collect [] [] number words
  (taken.reverse, rest)

def levelsStarted (number : Nat) (words : Words) : List LevelStart :=
  let (_, levels, _) := collect [] [] number words
  levels.reverse

def nth : Nat → Words → Option Word × Words
  | 0, words => words.next
  | number + 1, words =>
      match words.next with
      | (none, rest) => (none, rest)
      | (some _, rest) => nth number rest

end Words

end RegularWords

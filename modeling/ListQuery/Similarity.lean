/-!
# Similar words

The similarity of two texts is twice the number of matched characters over the sum of their lengths.  Characters are
matched block by block: the longest common block comes first, and what lies before it and behind it is matched in the same
way.  A word of 200 characters or more has *common* characters, those that occur in it more often than once in a hundred
places; a block cannot start from them but may be extended over them.
-/
namespace ListQuery.Similarity

/-! ## The longest common block -/

structure Block where
  left : Nat
  right : Nat
  size : Nat

/-- The lengths of the blocks that end at the character `x` and at each character of `b`, from those that end one
character earlier in both texts. -/
def nextRow (anchors : Char → Bool) (x : Char) : (b : List Char) → (earlier : List Nat) → List Nat
  | [], _ => []
  | y :: ys, earlier =>
    (if anchors y && x == y then earlier.headD 0 + 1 else 0) :: nextRow anchors x ys earlier.tail

/-- The better of a block and those that end at place `i` of the left text and at the places from `j` on of the right one.
Only a longer block is better, so that of equal ones the earliest stays. -/
def improve (i : Nat) : (j : Nat) → (row : List Nat) → Block → Block
  | _, [], best => best
  | j, size :: row, best =>
    improve i (j + 1) row (if best.size < size then ⟨i + 1 - size, j + 1 - size, size⟩ else best)

def anchoredBlock (anchors : Char → Bool) (b : List Char) : (i : Nat) → (a : List Char) → (row : List Nat) → Block → Block
  | _, [], _, best => best
  | i, x :: xs, row, best =>
    let row := nextRow anchors x b (0 :: row)
    anchoredBlock anchors b (i + 1) xs row (improve i 0 row best)

def commonLength : List Char → List Char → Nat
  | x :: xs, y :: ys => if x = y then commonLength xs ys + 1 else 0
  | _, _ => 0

def longestBlock (anchors : Char → Bool) (a b : List Char) : Block :=
  let core := anchoredBlock anchors b 0 a [] ⟨0, 0, 0⟩
  let before := commonLength (a.take core.left).reverse (b.take core.right).reverse
  let behind := commonLength (a.drop (core.left + core.size)) (b.drop (core.right + core.size))
  ⟨core.left - before, core.right - before, before + core.size + behind⟩

/-- The number of matched characters.  Every block is taken out of the left text, so its length bounds the rounds. -/
def matched (anchors : Char → Bool) : (fuel : Nat) → (a b : List Char) → Nat
  | 0, _, _ => 0
  | fuel + 1, a, b =>
    let block := longestBlock anchors a b
    if block.size = 0 then 0
    else
      matched anchors fuel (a.take block.left) (b.take block.right) + block.size +
        matched anchors fuel (a.drop (block.left + block.size)) (b.drop (block.right + block.size))

/-! ## Similarity -/

/-- The characters of a word from which no block may start. -/
def commonChars (word : List Char) : List Char :=
  if word.length < 200 then [] else word.eraseDups.filter fun c => word.length / 100 + 1 < word.count c

structure Score where
  above : Nat
  below : Nat

def Score.le (s t : Score) : Bool := s.above * t.below ≤ t.above * s.below

/-- The similarity of a candidate and a word with these common characters; two empty texts are alike. -/
def score (common word candidate : List Char) : Score :=
  let length := candidate.length + word.length
  if length = 0 then ⟨1, 1⟩
  else ⟨2 * matched (fun c => !common.contains c) candidate.length candidate word, length⟩

def threshold : Score := ⟨3, 5⟩

/-- Whether a scored text goes before another: by similarity, then by the greater text. -/
def goesBefore (p q : Score × String) : Bool :=
  if p.1.le q.1 && q.1.le p.1 then q.2 ≤ p.2 else q.1.le p.1

/-- The candidates that are close to a word, at most three, the most similar first. -/
def closeMatches (word : String) (candidates : List String) : List String :=
  let common := commonChars word.toList
  let scored := candidates.map fun c => (score common word.toList c.toList, c)
  (((scored.filter fun p => threshold.le p.1).mergeSort goesBefore).take 3).map Prod.snd

end ListQuery.Similarity

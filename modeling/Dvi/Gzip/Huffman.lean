/-!
# Canonical prefix codes

A code is given by the length of each symbol's code word. Words of one length are consecutive numbers in
the order of their symbols, and the first word of a length follows from the words that are shorter.

* `Huffman.isComplete`: every sequence of bits begins with a word;
* `Huffman.ofLengths`: the code for a list of lengths, **if it is complete, empty or a single word of one
  bit**;
* `Huffman.decode`: one symbol from a source of bits.
-/

namespace Dvi.Gzip

/-- The longest code word has 15 bits. -/
def maxCodeLength : Nat := 15

/-- A canonical code: how many words have each length from 1 to the longest, and the symbols in the order of
their words. -/
structure Huffman where
  counts : List Nat
  symbols : Array Nat

namespace Huffman

/-- The share of all words of 15 bits that words of these lengths use up. -/
def used (lengths : List Nat) : Nat :=
  lengths.foldl (fun share n => if n = 0 then share else share + (1 <<< (maxCodeLength - n))) 0

/-- Words of these lengths leave no sequence of bits over. -/
def isComplete (lengths : List Nat) : Bool := used lengths == 1 <<< maxCodeLength

/-- There is no word, or one, which has one bit. -/
def isTrivial (lengths : List Nat) : Bool :=
  match lengths.filter (· != 0) with
  | [] | [1] => true
  | _ => false

/-- The code in which symbol `i` has a word of `lengths[i]` bits, and none if that is zero. A code that is
neither complete nor trivial is refused. -/
def ofLengths (lengths : List Nat) : Option Huffman :=
  let coded := lengths.zipIdx.filter (·.1 != 0)
  if isComplete lengths || isTrivial lengths then
    let sizes := (List.range (lengths.foldl max 1)).map (· + 1)
    some {
      counts := sizes.map fun n => (coded.filter (·.1 == n)).length
      symbols := (sizes.flatMap fun n => (coded.filter (·.1 == n)).map Prod.snd).toArray }
  else none

/-- One symbol. `word` holds the bits read so far, `first` the first word of the present length and
`index` the number of words that are shorter. -/
def decodeFrom {m : Type → Type} [Monad m] (bit : m Nat) (symbols : Array Nat) (word first index : Nat) :
    List Nat → m (Option Nat)
  | [] => pure none
  | count :: longer => do
    let word := 2 * word + (← bit)
    if word < first + count then
      return symbols[index + (word - first)]?
    decodeFrom bit symbols word (2 * (first + count)) (index + count) longer

/-- The symbol whose word the bits spell; none if they spell no word. No bit is read beyond the longest
word. -/
def decode {m : Type → Type} [Monad m] (h : Huffman) (bit : m Nat) : m (Option Nat) :=
  decodeFrom bit h.symbols 0 0 0 h.counts

example : (ofLengths [2, 1, 2]).isSome ∧ (ofLengths [0, 0]).isSome ∧ (ofLengths [0, 1]).isSome ∧
    (ofLengths [2]).isNone ∧ (ofLengths [1, 2]).isNone ∧ (ofLengths [1, 1, 1]).isNone := by decide

end Huffman

end Dvi.Gzip

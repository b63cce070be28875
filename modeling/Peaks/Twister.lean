/-!
# A pseudo-random generator

The generator with 624 words of state and period `2^19937 - 1`, seeded from a whole number.

- `Twister.ofSeed`  : the state for a seed, whose sign does not matter
- `Twister.bits`    : so many random bits
- `Twister.below`   : a random number below a bound, by drawing until one fits
-/

namespace Peaks

structure Twister where
  words : Array UInt32
  /-- The next word to hand out; once all are used up they are renewed. -/
  index : Nat

namespace Twister

def size : Nat := 624

/-! ## Seeding -/

/-- The state that seeding starts from. -/
def plainState (seed : UInt32) : Array UInt32 :=
  (List.range (size - 1)).foldl (fun words i =>
    let last : UInt32 := words.getD i 0
    words.push ((last ^^^ (last >>> 30)) * 1812433253 + (i + 1).toUInt32)) #[seed]

/-- A whole number in words of 32 bits, the least significant first; zero is one word. -/
def keyWords (n : Nat) : List UInt32 :=
  let count := max 1 ((n.log2 + 32) / 32)
  (List.range count).map fun i => (n >>> (32 * i)).toUInt32

/-- Mixes a new value into the word at `i`, which depends on the word before it; at the end of the
words the last one is carried over to the front. -/
def mixWord (words : Array UInt32) (i : Nat) (mix : UInt32 → UInt32 → UInt32) :
    Array UInt32 × Nat :=
  let before := words.getD (i - 1) 0
  let words := words.setIfInBounds i (mix (words.getD i 0) (before ^^^ (before >>> 30)))
  if i + 1 < size then (words, i + 1)
  else (words.setIfInBounds 0 (words.getD (size - 1) 0), 1)

/-- The state for a key of at least one word. -/
def ofKey (key : List UInt32) : Twister :=
  let keys := key.toArray
  let rounds := max size keys.size
  let (words, i) := (List.range rounds).foldl (fun (words, i) round =>
    let j := round % keys.size
    mixWord words i fun word before =>
      (word ^^^ (before * 1664525)) + keys.getD j 0 + j.toUInt32) (plainState 19650218, 1)
  let (words, _) := (List.range (size - 1)).foldl (fun (words, i) _ =>
    mixWord words i fun word before => (word ^^^ (before * 1566083941)) - i.toUInt32) (words, i)
  { words := words.setIfInBounds 0 0x80000000, index := size }

def ofSeed (seed : Int) : Twister :=
  ofKey (keyWords seed.natAbs)

/-! ## Drawing -/

/-- New words from the old ones, in place. -/
def renew (words : Array UInt32) : Array UInt32 :=
  (List.range size).foldl (fun words k =>
    let y := (words.getD k 0 &&& 0x80000000) ||| (words.getD ((k + 1) % size) 0 &&& 0x7fffffff)
    let twist : UInt32 := if y &&& 1 == 1 then 0x9908b0df else 0
    words.setIfInBounds k (words.getD ((k + 397) % size) 0 ^^^ (y >>> 1) ^^^ twist)) words

/-- Spreads the bits of a word. -/
def temper (word : UInt32) : UInt32 :=
  let y := word ^^^ (word >>> 11)
  let y := y ^^^ ((y <<< 7) &&& 0x9d2c5680)
  let y := y ^^^ ((y <<< 15) &&& 0xefc60000)
  y ^^^ (y >>> 18)

/-- The next 32 bits. -/
def next (t : Twister) : UInt32 × Twister :=
  let t := if t.index < size then t else { words := renew t.words, index := 0 }
  (temper (t.words.getD t.index 0), { t with index := t.index + 1 })

/-- Words of 32 bits, the least significant first, until `count` bits are drawn; of the last word
only the upper bits count. -/
def bitsFrom (words count : Nat) (t : Twister) : Nat × Twister :=
  match words with
  | 0 => (0, t)
  | more + 1 =>
      let (word, t) := t.next
      if count ≤ 32 then (word.toNat >>> (32 - count), t)
      else
        let (high, t) := bitsFrom more (count - 32) t
        (word.toNat + high <<< 32, t)

def bits (count : Nat) (t : Twister) : Nat × Twister :=
  bitsFrom ((count + 31) / 32) count t

/-- Draws as many bits as the bound has until the number is below it, at most `tries` times. -/
def belowFrom (tries bound : Nat) (t : Twister) : Nat × Twister :=
  let (n, t) := t.bits (bound.log2 + 1)
  match tries with
  | 0 => (n % bound, t)
  | more + 1 => if n < bound then (n, t) else belowFrom more bound t

/-- A number below a bound that is not zero. A draw fits more often than not, so that so many tries
never fail. -/
def below (bound : Nat) (t : Twister) : Nat × Twister :=
  belowFrom 4096 bound t

end Twister

end Peaks

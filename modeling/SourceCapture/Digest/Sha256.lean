/-
The SHA-256 digest. A message is padded to blocks of sixteen words; every block is
expanded to a schedule of sixty-four words, each of which drives one round on eight words
of state; the state after the last block is the digest.
-/

namespace SourceCapture.Sha256

/-- The eight words that every round works on. -/
structure State where
  a : UInt32
  b : UInt32
  c : UInt32
  d : UInt32
  e : UInt32
  f : UInt32
  g : UInt32
  h : UInt32

/-- The state before the first block: fractions of the square roots of eight primes. -/
def State.initial : State := ⟨
  0x6a09e667, 0xbb67ae85, 0x3c6ef372, 0xa54ff53a,
  0x510e527f, 0x9b05688c, 0x1f83d9ab, 0x5be0cd19⟩

/-- The sum of two states, word by word. -/
def State.add (left right : State) : State :=
  ⟨left.a + right.a, left.b + right.b, left.c + right.c, left.d + right.d,
    left.e + right.e, left.f + right.f, left.g + right.g, left.h + right.h⟩

/-- The words of a state in order. -/
def State.words (state : State) : List UInt32 :=
  [state.a, state.b, state.c, state.d, state.e, state.f, state.g, state.h]

/-- One constant for each round: fractions of the cube roots of sixty-four primes. -/
def roundConstants : List UInt32 := [
  0x428a2f98, 0x71374491, 0xb5c0fbcf, 0xe9b5dba5, 0x3956c25b, 0x59f111f1, 0x923f82a4, 0xab1c5ed5,
  0xd807aa98, 0x12835b01, 0x243185be, 0x550c7dc3, 0x72be5d74, 0x80deb1fe, 0x9bdc06a7, 0xc19bf174,
  0xe49b69c1, 0xefbe4786, 0x0fc19dc6, 0x240ca1cc, 0x2de92c6f, 0x4a7484aa, 0x5cb0a9dc, 0x76f988da,
  0x983e5152, 0xa831c66d, 0xb00327c8, 0xbf597fc7, 0xc6e00bf3, 0xd5a79147, 0x06ca6351, 0x14292967,
  0x27b70a85, 0x2e1b2138, 0x4d2c6dfc, 0x53380d13, 0x650a7354, 0x766a0abb, 0x81c2c92e, 0x92722c85,
  0xa2bfe8a1, 0xa81a664b, 0xc24b8b70, 0xc76c51a3, 0xd192e819, 0xd6990624, 0xf40e3585, 0x106aa070,
  0x19a4c116, 0x1e376c08, 0x2748774c, 0x34b0bcb5, 0x391c0cb3, 0x4ed8aa4a, 0x5b9cca4f, 0x682e6ff3,
  0x748f82ee, 0x78a5636f, 0x84c87814, 0x8cc70208, 0x90befffa, 0xa4506ceb, 0xbef9a3f7, 0xc67178f2]

/-- Turns a word to the right, the low bits entering at the top. -/
def rotateRight (word count : UInt32) : UInt32 := (word >>> count) ||| (word <<< (32 - count))

/-- Four bytes as one word, the first byte highest. -/
def wordOfBytes (first second third fourth : UInt8) : UInt32 :=
  (first.toUInt32 <<< 24) ||| (second.toUInt32 <<< 16) ||| (third.toUInt32 <<< 8) |||
    fourth.toUInt32

/-- The words of a text of bytes; bytes after the last full word are left out. -/
def wordsOfBytes : List UInt8 → List UInt32
  | first :: second :: third :: fourth :: rest =>
    wordOfBytes first second third fourth :: wordsOfBytes rest
  | _ => []

/-- The bytes of a number, highest first. -/
def bytesOfNat (count value : Nat) : List UInt8 :=
  (List.range count).reverse.map fun index => UInt8.ofNat (value >>> (8 * index))

/-- The message with a single one bit, zeros and its length in bits after it, so that it
fills whole blocks of sixty-four bytes. -/
def pad (message : List UInt8) : List UInt8 :=
  let zeros := (119 - message.length % 64) % 64
  message ++ 0x80 :: List.replicate zeros 0 ++ bytesOfNat 8 (8 * message.length)

/-- The next word of a schedule whose latest words are given, the latest first. -/
def nextWord (latest : List UInt32) : UInt32 :=
  let before := latest.getD 14 0
  let recent := latest.getD 1 0
  let low := rotateRight before 7 ^^^ rotateRight before 18 ^^^ (before >>> 3)
  let high := rotateRight recent 17 ^^^ rotateRight recent 19 ^^^ (recent >>> 10)
  latest.getD 15 0 + low + latest.getD 6 0 + high

/-- The sixty-four words of a block of sixteen. -/
def schedule (block : List UInt32) : List UInt32 :=
  ((List.range 48).foldl (fun latest _ => nextWord latest :: latest) block.reverse).reverse

/-- One round with its constant and its word of the schedule. -/
def round (state : State) (constant word : UInt32) : State :=
  let high := rotateRight state.e 6 ^^^ rotateRight state.e 11 ^^^ rotateRight state.e 25
  let choice := (state.e &&& state.f) ^^^ ((~~~ state.e) &&& state.g)
  let first := state.h + high + choice + constant + word
  let low := rotateRight state.a 2 ^^^ rotateRight state.a 13 ^^^ rotateRight state.a 22
  let majority := (state.a &&& state.b) ^^^ (state.a &&& state.c) ^^^ (state.b &&& state.c)
  ⟨first + (low + majority), state.a, state.b, state.c, state.d + first, state.e, state.f,
    state.g⟩

/-- The state after one more block. -/
def compress (state : State) (block : List UInt32) : State :=
  let rounds := roundConstants.zip (schedule block)
  state.add (rounds.foldl (fun current pair => round current pair.1 pair.2) state)

/-- The state after as many blocks of sixteen words as there are. -/
def compressBlocks : Nat → State → List UInt32 → State
  | 0, state, _ => state
  | count + 1, state, words =>
    compressBlocks count (compress state (words.take 16)) (words.drop 16)

/-- The thirty-two bytes of the digest of a message. -/
def digest (message : List UInt8) : List UInt8 :=
  let padded := pad message
  let final := compressBlocks (padded.length / 64) State.initial (wordsOfBytes padded)
  final.words.flatMap fun word => bytesOfNat 4 word.toNat

/-- A digest has thirty-two bytes. -/
theorem length_digest (message : List UInt8) : (digest message).length = 32 := by
  simp [digest, State.words, bytesOfNat]

end SourceCapture.Sha256

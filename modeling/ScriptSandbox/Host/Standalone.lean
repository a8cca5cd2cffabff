import ScriptSandbox.Host.Basic

/-!
The host of a run that nobody scripts: a clock that moves one millisecond with every reading, a
pseudo-random sequence of its own for every seed, and no network.
-/

namespace ScriptSandbox.Host

def steadyClock (reading : Nat) : Number :=
  Number.ofNat reading

/-- Spreads the bits of a 64-bit word over all of its places. -/
def mixWord (word : Nat) : Nat :=
  let first := ((word ^^^ (word >>> 30)) * 0xBF58476D1CE4E5B9) % twoTo 64
  let second := ((first ^^^ (first >>> 27)) * 0x94D049BB133111EB) % twoTo 64
  second ^^^ (second >>> 31)

/-- The draws of a seed: multiples of `2 ^ -53` from 0 up to 1, without 1. -/
def seededRandom (seed draw : Nat) : Number :=
  let word := mixWord ((seed + (draw + 1) * 0x9E3779B97F4A7C15) % twoTo 64)
  Number.ofUnitRatio false (word / twoTo 11 * Number.unitsPerOne) (twoTo 53)

def standalone (width height : Number) (store : Store) (seed : Nat) : Host where
  width := width
  height := height
  store := store
  network := []
  clock := steadyClock
  random := seededRandom seed
  readings := 0
  draws := 0
  events := #[]

end ScriptSandbox.Host

import Mathlib.Data.List.Nodup
import ParticleLedger.Atom.Basic

/-!
# Names that can be worked out

The schedule of a block slides a window over its words. Kept as a list, the window is shifted by
taking its head off and putting the next word at its end, which the kernel does quickly, so that the
names of given atoms can be worked out in a proof.

Main statements: `schedule_eq_slide` (the list gives the same schedule), `sha256_eq_slid` and
`Atom.nodup_ids_of_leadingBytes` (names that begin with different bytes differ; for coins,
`Coin.nodup_ids_of_leadingBytes`, and `Coin.compare_id_of_leadingBytes` for their order).
-/

namespace ParticleLedger

namespace Hash

variable {W : Type}

/-- The message schedule with the window as a list, whose sixteen words are shifted by one at each
step. -/
def slide (ops : WordOps W) : (count : Nat) → (window : List W) → List W
  | count + 1, w₀ :: w₁ :: rest =>
    let next := ops.add (ops.add (ops.smallSigma1 (rest.getD 12 w₀)) (rest.getD 7 w₀))
      (ops.add (ops.smallSigma0 w₁) w₀)
    w₀ :: slide ops count (w₁ :: (rest ++ [next]))
  | _, _ => []

theorem schedule_eq_slide (ops : WordOps W) (count : Nat) (window : Vector W 16) :
    schedule ops count window = slide ops count window.toList := by
  induction count generalizing window with
  | zero => simp [schedule, slide]
  | succ count ih =>
    obtain ⟨⟨words⟩, hsize⟩ := window
    match words, hsize with
    | w₀ :: w₁ :: rest, hsize =>
      have hlen : rest.length = 14 := by simpa using hsize
      simp only [schedule, ih]
      simp [slide, hlen, List.take_of_length_le]

/-- Folds one block into the state, with the schedule taken from a list. -/
def compressSlid (ops : WordOps W) (s : WorkingState W) (block : Bytes) : WorkingState W :=
  let words := slide ops ops.constants.length (blockWords ops block).toList
  s.zipAdd ops ((ops.constants.zip words).foldl (WorkingState.round ops) s)

/-- The SHA-256 digest with the schedules taken from lists. -/
def sha256Slid (message : Bytes) : Bytes :=
  let r := squareRootBits
  let padded := pad ops256.size message
  let blocks := pieces (16 * ops256.size) (padded.length / (16 * ops256.size)) padded
  (blocks.foldl (compressSlid ops256) ⟨highHalf r.a, highHalf r.b, highHalf r.c, highHalf r.d,
    highHalf r.e, highHalf r.f, highHalf r.g, highHalf r.h⟩).bytes ops256

theorem sha256_eq_slid (message : Bytes) : sha256 message = sha256Slid message := by
  have h : compress ops256 = compressSlid ops256 := by
    funext s block
    simp only [compress, compressSlid, schedule_eq_slide]
  simp only [sha256, digest, sha256Slid, h]

end Hash

/-- The first byte of the name of an atom. -/
def Atom.leadingByte (a : Atom) : Option UInt8 :=
  (Hash.sha256Slid a.canonicalBytes).head?

theorem Atom.leadingByte_eq (a : Atom) : a.leadingByte = a.id.digest.bytes.toList.head? := by
  rw [leadingByte, ← Hash.sha256_eq_slid]
  rfl

/-- Atoms whose names begin with different bytes have different names. -/
theorem Atom.nodup_ids_of_leadingBytes {atoms : List Atom}
    (h : (atoms.map leadingByte).Nodup) : (atoms.map Atom.id).Nodup := by
  refine List.Nodup.of_map (fun id : AtomId => id.digest.bytes.toList.head?) ?_
  rwa [List.map_map, show (fun id : AtomId => id.digest.bytes.toList.head?) ∘ Atom.id =
    leadingByte from funext fun a => (leadingByte_eq a).symm]

/-- The first byte of the name of a coin. -/
def Coin.leadingByte (c : Coin) : Option UInt8 :=
  (Hash.sha256Slid c.canonical.encode).head?

theorem Coin.leadingByte_eq (c : Coin) : c.leadingByte = c.id.digest.bytes.toList.head? := by
  rw [leadingByte, ← Hash.sha256_eq_slid]
  rfl

/-- Coins whose names begin with different bytes have different names. -/
theorem Coin.nodup_ids_of_leadingBytes {coins : List Coin}
    (h : (coins.map Coin.leadingByte).Nodup) : (coins.map Coin.id).Nodup := by
  refine List.Nodup.of_map (fun id : ParticleId => id.digest.bytes.toList.head?) ?_
  rwa [List.map_map, show (fun id : ParticleId => id.digest.bytes.toList.head?) ∘ Coin.id =
    leadingByte from funext fun c => (leadingByte_eq c).symm]

/-- Coins whose names begin with different bytes are ordered by these. -/
theorem Coin.compare_id_of_leadingBytes {c d : Coin} {x y : UInt8} (hx : c.leadingByte = some x)
    (hy : d.leadingByte = some y) (hlt : x < y) : compare c.id d.id = .lt := by
  rw [leadingByte_eq, List.head?_eq_some_iff] at hx hy
  obtain ⟨xs, hxs⟩ := hx
  obtain ⟨ys, hys⟩ := hy
  show compare c.id.digest.bytes d.id.digest.bytes = .lt
  rw [Vector.compare_eq_compare_toList, hxs, hys, List.compare_cons_cons, Std.compare_eq_lt.2 hlt]
  rfl

end ParticleLedger

/-
  NetworkingFinal.Ftp.Transfer

  What the two sides of a transfer share: the values of src/lib/config.py they
  both use, the clock, and how data is cut into segments.  The sender of an
  upload is the client and the sender of a download the server, with the same
  expressions.
-/
import NetworkingFinal.Ftp.Pocket
import NetworkingFinal.Lib.Chunks
import NetworkingFinal.Py.TrueDiv

namespace NetworkingFinal
namespace Ftp

open Py Lib

/-- `config.FILE_PATH_MAX_LENGTH` -/
def FILE_PATH_MAX_LENGTH : Nat := 256

/-- `config.SOCKET_TIMEOUT`, in microseconds. -/
def SOCKET_TIMEOUT : Int := 100000

/-- `config.CWND_START_VALUE` -/
def CWND_START_VALUE : Nat := 1500

/-- The clock readings one step of a sender may take, in microseconds. -/
structure Readings where
  now : Int
  rttEnd : Int
  lastEnd : Int

/-- The ids a sender drops from its windows for a pocket, when a pocket of the type
    `final` only tells it to stop. -/
def acknowledged (final : PocketType) (pocket : Pocket) : List Nat :=
  if pocket.basicLayer.pocketType = final then []
  else (pocket.akcLayer.map AKCLayer.segmentID).toList

-- ============================================================================
-- Segments
-- ============================================================================

/-- `int(dataSize / singleSegmentSize)`, raised by one when that many segments do
    not cover the data. -/
def segmentsAmountOf (dataSize singleSegmentSize : Nat) : Nat :=
  let segmentsAmount := trueDivInt dataSize singleSegmentSize
  if segmentsAmount * singleSegmentSize < dataSize then segmentsAmount + 1 else segmentsAmount

/-- The slice of the data sent as one segment. -/
def segmentOf (data : Bytes) (dataSize singleSegmentSize segmentID : Nat) : Bytes :=
  -- the comparison of the source, with the subtraction on integers
  if (segmentID : Int) * singleSegmentSize ≤ (dataSize : Int) - singleSegmentSize then
    slice data (segmentID * singleSegmentSize) ((segmentID + 1) * singleSegmentSize)
  else
    data.drop (segmentID * singleSegmentSize)

/-- The segments cover the data while the quotient has at most 54 bits. -/
theorem le_segmentsAmountOf_mul {dataSize singleSegmentSize : Nat} (hpos : 0 < singleSegmentSize)
    (hle : dataSize ≤ 2 ^ 54 * singleSegmentSize) :
    dataSize ≤ segmentsAmountOf dataSize singleSegmentSize * singleSegmentSize := by
  have hsucc := le_trueDivInt_succ_mul hpos hle
  simp only [segmentsAmountOf]
  split
  · exact hsucc
  · next hcover => omega

theorem segmentsAmountOf_pos {dataSize singleSegmentSize : Nat} (h : dataSize ≠ 0) :
    0 < segmentsAmountOf dataSize singleSegmentSize := by
  simp only [segmentsAmountOf]
  split
  · exact Nat.succ_pos _
  · next hcover =>
      rcases Nat.eq_zero_or_pos (trueDivInt dataSize singleSegmentSize) with hz | hpos
      · rw [hz, Nat.zero_mul] at hcover
        omega
      · exact hpos

/-- The last segment and the others are the same slice: at most one segment size
    from the segment's place on. -/
theorem segmentOf_eq_chunk (data : Bytes) (singleSegmentSize segmentID : Nat) :
    segmentOf data data.length singleSegmentSize segmentID =
      chunk data singleSegmentSize segmentID := by
  have hsucc : (segmentID + 1) * singleSegmentSize - segmentID * singleSegmentSize =
      singleSegmentSize := by
    rw [Nat.add_mul, Nat.one_mul, Nat.add_sub_cancel_left]
  rw [segmentOf, chunk]
  split
  · rw [slice, hsucc]
  · next hlast =>
      have hlen : (data.drop (segmentID * singleSegmentSize)).length ≤ singleSegmentSize := by
        rw [List.length_drop]
        rw [← Nat.cast_mul] at hlast
        omega
      rw [List.take_of_length_le hlen]

/-- A segment is the slice from its place on, up to the next place or the end. -/
theorem segmentOf_eq_slice (data : Bytes) (singleSegmentSize segmentID : Nat) :
    segmentOf data data.length singleSegmentSize segmentID =
      slice data (segmentID * singleSegmentSize)
        (min ((segmentID + 1) * singleSegmentSize) data.length) := by
  have hsucc : (segmentID + 1) * singleSegmentSize =
      segmentID * singleSegmentSize + singleSegmentSize := by
    rw [Nat.add_mul, Nat.one_mul]
  rw [segmentOf_eq_chunk, chunk, slice, hsucc]
  rcases Nat.le_total (segmentID * singleSegmentSize + singleSegmentSize) data.length with hle | hle
  · rw [Nat.min_eq_left hle, Nat.add_sub_cancel_left]
  · rw [Nat.min_eq_right hle, List.take_of_length_le (by rw [List.length_drop]; omega),
      List.take_of_length_le (by rw [List.length_drop])]

/-- The place of every segment is inside the data while the quotient is exact. -/
theorem mul_lt_of_lt_segmentsAmountOf {dataSize singleSegmentSize k : Nat}
    (hpos : 0 < singleSegmentSize) (hsize : dataSize < 2 ^ 53)
    (hk : k < segmentsAmountOf dataSize singleSegmentSize) :
    k * singleSegmentSize < dataSize := by
  have hfloor : dataSize / singleSegmentSize * singleSegmentSize ≤ dataSize :=
    Nat.div_mul_le_self _ _
  simp only [segmentsAmountOf, trueDivInt_eq_div hpos hsize] at hk
  split at hk
  · next hrest =>
      have hle : k * singleSegmentSize ≤ dataSize / singleSegmentSize * singleSegmentSize :=
        Nat.mul_le_mul_right _ (Nat.le_of_lt_succ hk)
      omega
  · exact Nat.lt_of_lt_of_le (Nat.mul_lt_mul_of_pos_right hk hpos) hfloor

/-- All segments in their order are the data. -/
theorem flatMap_segmentOf {data : Bytes} {singleSegmentSize segmentsAmount : Nat}
    (h : data.length ≤ segmentsAmount * singleSegmentSize) :
    (List.range segmentsAmount).flatMap (segmentOf data data.length singleSegmentSize) = data := by
  rw [funext (segmentOf_eq_chunk data singleSegmentSize)]
  exact flatMap_range_chunk_of_le h

end Ftp
end NetworkingFinal

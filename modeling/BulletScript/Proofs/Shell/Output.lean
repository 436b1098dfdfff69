import BulletScript.Shell.Output

/-! Outputs that arrive in chunks. What is kept of an output, and whether something of it was left out,
depends on its bytes and not on where they were cut. -/
namespace BulletScript.Shell.Output

variable (o : Output)

theorem room_feed (chunk : List UInt8) : (o.feed chunk).room = o.room - chunk.length := by
  simp only [room, feed, List.length_append, List.length_take]
  omega

/-- A chunk fed behind another one is the end of one longer chunk. -/
theorem feed_append (front back : List UInt8) :
    (o.feed front).feed back = o.feed (front ++ back) := by
  have hroom := o.room_feed front
  have hdata : (o.feed front).data ++ back.take (o.feed front).room =
      o.data ++ (front ++ back).take o.room := by
    rw [hroom, List.take_append, ← List.append_assoc]
    rfl
  have htruncated :
      ((o.feed front).truncated || decide ((o.feed front).room < back.length)) =
        (o.truncated || decide (o.room < (front ++ back).length)) := by
    rw [hroom, List.length_append]
    -- a chunk beyond the room leaves none, so that only the sum of the lengths matters
    have hsum : (o.room < front.length ∨ o.room - front.length < back.length) ↔
        o.room < front.length + back.length := by omega
    simp only [feed, Bool.or_assoc, ← Bool.decide_or, hsum]
  rw [feed, hdata, htruncated]
  rfl

/-- An empty chunk changes nothing, whether there is room or not. -/
theorem feed_nil : o.feed [] = o := by
  simp [feed]

/-- Chunks fed one after the other leave what all their bytes at once would leave. -/
theorem feedAll_eq_feed (chunks : List (List UInt8)) : o.feedAll chunks = o.feed chunks.flatten := by
  induction chunks generalizing o with
  | nil => exact o.feed_nil.symm
  | cons chunk chunks ih =>
    have hchunks := ih (o.feed chunk)
    rw [List.flatten_cons, ← feed_append, ← hchunks]
    rfl

variable {chunks others : List (List UInt8)}

/-- Of an output its first bytes are kept, as many as the limit allows, and it counts as truncated
exactly if it has more. Cut into other chunks, the same bytes give the same text. -/
theorem chunks_kept (limit : Nat) (h : others.flatten = chunks.flatten) :
    let kept := feedAll ⟨limit, [], false⟩ chunks
    kept.data = chunks.flatten.take (min limit chunks.flatten.length) ∧
      (kept.truncated = true ↔ limit < chunks.flatten.length) ∧
      kept.data.length ≤ limit ∧
      (feedAll ⟨limit, [], false⟩ others).text = kept.text := by
  intro kept
  have hkept : kept = feed ⟨limit, [], false⟩ chunks.flatten := feedAll_eq_feed _ chunks
  have hdata : kept.data = chunks.flatten.take limit := by
    rw [hkept]
    rfl
  refine ⟨?_, ?_, ?_, ?_⟩
  · rw [hdata, List.take_eq_take_iff]
    omega
  · rw [hkept]
    simp [feed, room]
  · rw [hdata]
    exact List.length_take_le limit _
  · rw [feedAll_eq_feed, h, hkept]

/-- A chunk that ends at the limit, an empty one behind it, and one byte too many. -/
theorem chunks_kept_straddling :
    let whole : List (List UInt8) := [[0x61, 0x62, 0x63], [0x64]]
    let parts : List (List UInt8) := [[0x61], [], [0x62, 0x63], [], [0x64]]
    whole.flatten = parts.flatten ∧
      (feedAll ⟨3, [], false⟩ parts).data = [0x61, 0x62, 0x63] ∧
      (feedAll ⟨3, [], false⟩ parts).truncated = true ∧
      (feedAll ⟨3, [], false⟩ whole).text = (feedAll ⟨3, [], false⟩ parts).text := by
  intro whole parts
  have hsame : whole.flatten = parts.flatten := rfl
  obtain ⟨hdata, htruncated, -, htext⟩ := chunks_kept 3 hsame
  exact ⟨hsame, hdata, htruncated.2 (by decide), htext⟩

end BulletScript.Shell.Output

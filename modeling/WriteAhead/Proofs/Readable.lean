import WriteAhead.Proofs.Recovery

/-!
What a rescan finds in a file. Main statements: what can be read of a file under one name is not changed by cutting it
to what can be read under another (`readable?_take`), all names agree on where this ends (`validEnd_eq`), and nothing
but the time range of a block depends on the clock (`timeless_block?`).
-/

namespace WriteAhead

open Page

/-- A block without its time range, which is up to the clock. -/
def Block.timeless (b : Block) : Block := { b with info := { b.info with start := none, stop := none } }

namespace Log

section

variable [Codecs] (log : Log) (find : Bytes → String → Except String (UInt32 × UInt32)) (additional : Duration)
  (now : UInt32)

/-- What can be read of a file of this name that holds `bytes`, if anything, leaving out what follows it. -/
def readable? (name : String) (bytes : Bytes) : Option (Descriptor × Replay) :=
  match Descriptor.parse name with
  | .error _ => none
  | .ok descriptor =>
    match replay descriptor.encoding log.options.readBuffer (.ofBytes bytes) with
    | .error _ => none
    | .ok r => if r.records = [] then none else some (descriptor, { r with warning := none })

/-- What the deriver is asked for such a file. -/
def hint? (name : String) (bytes : Bytes) : Option (Bytes × String) :=
  (log.readable? name bytes).bind fun (descriptor, r) =>
    r.records.head?.map fun first => (first.id, descriptor.dataEncoding)

/-- The time range of such a file, adjusted to the slack. -/
def range? (name : String) (bytes : Bytes) : Option (UInt32 × UInt32) :=
  (log.hint? name bytes).bind fun (id, dataEncoding) =>
    (find id dataEncoding).toOption.map fun (start, stop) => adjustRange now log.options.slack additional start stop

/-- The block of such a file, which has the number `id`. -/
def block? (name : String) (id : FileId) (bytes : Bytes) : Option Block :=
  (log.readable? name bytes).bind fun (descriptor, r) =>
    (log.range? find additional now name bytes).map fun (start, stop) =>
      (Block.restored descriptor (log.options.root ++ [name]) r log.options id).setRange start stop

end

theorem parse_ne_io {filename : String} : Descriptor.parse filename ≠ .error .io := by
  unfold Descriptor.parse
  cases Descriptor.ofChars filename.toList <;> exact fun h => by cases h

section

variable [Codecs] {log : Log} {name other : String} {bytes : Bytes} {descriptor : Descriptor} {r : Replay}

theorem readable?_joined (hb : 0 < log.options.readBuffer) (hp : Descriptor.parse name = .ok descriptor)
    {xs : List Entry} (hx : ∀ x ∈ xs, x.IsValid descriptor.encoding) {tail : Bytes}
    (ht : NoPage descriptor.encoding tail) : log.readable? name (joined xs ++ tail) =
      if xs = [] then none else some (descriptor, ⟨layout 0 xs, (joined xs).length, none⟩) := by
  obtain ⟨warning, -, hreplay⟩ := replay_joined hb hx ht
  rw [readable?, hp]
  dsimp only
  rw [hreplay]
  cases xs <;> rfl

theorem exists_replay_of_readable? (h : log.readable? name bytes = some (descriptor, r)) :
    Descriptor.parse name = .ok descriptor ∧ r.records ≠ [] ∧
      ∃ warning, replay descriptor.encoding log.options.readBuffer (.ofBytes bytes) = .ok { r with warning } := by
  unfold readable? at h
  split at h
  · cases h
  · next hp =>
    split at h
    · cases h
    · next hr =>
      split at h
      · cases h
      · next hne =>
        cases h
        exact ⟨hp, hne, _, hr⟩

/-- Where nothing can be held, nothing is read. -/
theorem pos_of_readable? (h : log.readable? name bytes = some (descriptor, r)) : 0 < log.options.readBuffer := by
  obtain ⟨-, hne, warning, hr⟩ := exists_replay_of_readable? h
  apply Nat.pos_of_ne_zero
  intro hz
  have hnone : replay descriptor.encoding 0 (.ofBytes bytes) = .ok ⟨[], 0, none⟩ := by
    simp [replay, replayFrom, Source.ofBytes]
  rw [hz, hnone] at hr
  exact hne (congrArg Replay.records (Except.ok.inj hr)).symm

theorem hint?_eq (h : log.readable? name bytes = some (descriptor, r)) {first : Record} {rest : Index}
    (hf : r.records = first :: rest) : log.hint? name bytes = some (first.id, descriptor.dataEncoding) := by
  rw [hint?, h, Option.bind_some]
  dsimp only
  rw [hf]
  rfl

theorem block?_eq_none {find : Bytes → String → Except String (UInt32 × UInt32)} {id dataEncoding} {reason : String}
    (h : log.hint? name bytes = some (id, dataEncoding)) (hf : find id dataEncoding = .error reason)
    (additional : Duration) (now : UInt32) (file : FileId) : log.block? find additional now name file bytes = none := by
  have hrange : log.range? find additional now name bytes = none := by
    rw [range?, h, Option.bind_some]
    dsimp only
    rw [hf]
    rfl
  rw [block?, hrange]
  cases log.readable? name bytes <;> rfl

theorem block?_eq_some {find : Bytes → String → Except String (UInt32 × UInt32)} {id dataEncoding} {start stop : UInt32}
    (hr : log.readable? name bytes = some (descriptor, r)) (h : log.hint? name bytes = some (id, dataEncoding))
    (hf : find id dataEncoding = .ok (start, stop)) (additional : Duration) (now : UInt32) (file : FileId) :
    log.block? find additional now name file bytes =
      some ((Block.restored descriptor (log.options.root ++ [name]) r log.options file).setRange
        (adjustRange now log.options.slack additional start stop).1
        (adjustRange now log.options.slack additional start stop).2) := by
  have hrange : log.range? find additional now name bytes =
      some (adjustRange now log.options.slack additional start stop) := by
    rw [range?, h, Option.bind_some]
    dsimp only
    rw [hf]
    rfl
  rw [block?, hr, hrange]
  rfl

/-- What can be read are whole pages at the front. -/
theorem exists_joined_of_readable? (hb : 0 < log.options.readBuffer)
    (h : log.readable? name bytes = some (descriptor, r)) : ∃ xs tail, xs ≠ [] ∧
      (∀ x ∈ xs, x.IsValid descriptor.encoding) ∧ NoPage descriptor.encoding tail ∧ bytes = joined xs ++ tail ∧
      r = ⟨layout 0 xs, (joined xs).length, none⟩ := by
  obtain ⟨hp, -⟩ := exists_replay_of_readable? h
  obtain ⟨pages, tail, hparse⟩ := exists_isParse descriptor.encoding bytes
  obtain ⟨xs, rfl, hx⟩ := exists_entries hparse.valid
  have hbytes : bytes = joined xs ++ tail := by rw [joined_eq_flatten, hparse.joined]
  rw [hbytes, readable?_joined hb hp hx hparse.noPage] at h
  split at h
  · cases h
  · next hne =>
    cases h
    exact ⟨xs, tail, hne, hx, hparse.noPage, hbytes, rfl⟩

/-- Cutting a file to what can be read of it under one name changes nothing of what can be read under any. -/
theorem readable?_take (hb : 0 < log.options.readBuffer) (h : log.readable? other bytes = some (descriptor, r))
    (name : String) : log.readable? name (bytes.take r.validEnd) = log.readable? name bytes := by
  obtain ⟨xs, tail, hne, hx, ht, rfl, rfl⟩ := exists_joined_of_readable? hb h
  dsimp only
  rw [List.take_left]
  cases hp : Descriptor.parse name with
  | error fault => rw [readable?, hp, readable?, hp]
  | ok found =>
    by_cases he : found.encoding = descriptor.encoding
    · rw [← he] at hx ht
      have hcut := readable?_joined hb hp hx noPage_nil
      rw [List.append_nil] at hcut
      rw [hcut, readable?_joined hb hp hx ht]
    · have hcut := @readable?_joined _ log name found hb hp [] (by simp) _ (noPage_of_ne he hx hne [])
      have hall := @readable?_joined _ log name found hb hp [] (by simp) _ (noPage_of_ne he hx hne tail)
      rw [joined_nil, List.nil_append] at hcut hall
      rw [List.append_nil] at hcut
      rw [hcut, hall]

theorem validEnd_le (hb : 0 < log.options.readBuffer) (h : log.readable? name bytes = some (descriptor, r)) :
    r.validEnd ≤ bytes.length := by
  obtain ⟨xs, tail, -, -, -, rfl, rfl⟩ := exists_joined_of_readable? hb h
  rw [List.length_append]
  exact Nat.le_add_right _ _

/-- All names of a file under which something can be read agree on where this ends. -/
theorem validEnd_eq (hb : 0 < log.options.readBuffer) (h : log.readable? name bytes = some (descriptor, r))
    {descriptor' : Descriptor} {r' : Replay} (h' : log.readable? other bytes = some (descriptor', r')) :
    r.validEnd = r'.validEnd := by
  have hle : ∀ {name other descriptor r descriptor' r'}, log.readable? name bytes = some (descriptor, r) →
      log.readable? other bytes = some (descriptor', r') → r.validEnd ≤ r'.validEnd := by
    intro name other descriptor r descriptor' r' h h'
    have hcut := validEnd_le hb ((readable?_take hb h' name).trans h)
    rw [List.length_take] at hcut
    exact Nat.le_trans hcut (Nat.min_le_left _ _)
  exact Nat.le_antisymm (hle h h') (hle h' h)

theorem block?_congr (find : Bytes → String → Except String (UInt32 × UInt32)) (additional : Duration) (now : UInt32)
    (id : FileId) {bytes bytes' : Bytes} (h : log.readable? name bytes' = log.readable? name bytes) :
    log.block? find additional now name id bytes' = log.block? find additional now name id bytes ∧
      log.hint? name bytes' = log.hint? name bytes := by
  have hhint : log.hint? name bytes' = log.hint? name bytes := by rw [hint?, hint?, h]
  exact ⟨by rw [block?, block?, range?, range?, hhint, h], hhint⟩

variable {find : Bytes → String → Except String (UInt32 × UInt32)} {additional : Duration} {now : UInt32} {id : FileId}
  {b : Block}

theorem exists_readable?_of_block? (h : log.block? find additional now name id bytes = some b) :
    ∃ descriptor r, log.readable? name bytes = some (descriptor, r) ∧ r.validEnd = b.writer.size := by
  unfold block? at h
  cases hr : log.readable? name bytes with
  | none =>
    rw [hr] at h
    cases h
  | some found =>
    obtain ⟨descriptor, r⟩ := found
    rw [hr, Option.bind_some, Option.map_eq_some_iff] at h
    obtain ⟨range, -, rfl⟩ := h
    exact ⟨descriptor, r, rfl, rfl⟩

/-- A file with a block can be read, and there is a time range for it. -/
theorem exists_range_of_block? (h : log.block? find additional now name id bytes = some b) :
    ∃ descriptor r first rest range, log.readable? name bytes = some (descriptor, r) ∧ r.validEnd = b.writer.size ∧
      r.records = first :: rest ∧ find first.id descriptor.dataEncoding = .ok range := by
  obtain ⟨descriptor, r, hr, hend⟩ := exists_readable?_of_block? h
  obtain ⟨-, hne, -⟩ := exists_replay_of_readable? hr
  obtain ⟨first, rest, hrecords⟩ := List.exists_cons_of_ne_nil hne
  cases hrange : find first.id descriptor.dataEncoding with
  | error reason => cases (block?_eq_none (hint?_eq hr hrecords) hrange additional now id).symm.trans h
  | ok range => exact ⟨descriptor, r, first, rest, range, hr, hend, hrecords, hrange⟩

/-- The time range of a block, as it was found for its first record and adjusted, whether or not sums overflow. -/
theorem range_of_block? (h : log.block? find additional now name id bytes = some b) :
    b.path = log.options.root ++ [name] ∧ ∃ first start stop, b.index.head? = some first ∧
      find first.id b.descriptor.dataEncoding = .ok (start, stop) ∧
      b.info.start = some (if now.toNat ≤
        start.toNat + (log.options.slack.seconds.toNat + additional.seconds.toNat) % UInt64.size then start else now) ∧
      b.info.stop = some (if stop.toNat ≤ (now.toNat + log.options.slack.seconds.toNat) % UInt64.size then stop
        else now) := by
  obtain ⟨descriptor, r, first, rest, ⟨start, stop⟩, hr, -, hrecords, hfind⟩ := exists_range_of_block? h
  have hblock := block?_eq_some hr (hint?_eq hr hrecords) hfind additional now id
  rw [adjustRange_eq] at hblock
  cases h.symm.trans hblock
  refine ⟨rfl, first, start, stop, ?_, hfind, rfl, rfl⟩
  exact (congrArg List.head? hrecords).trans List.head?_cons

/-- But for its time range, a block does not depend on the clock. -/
theorem timeless_block? (find : Bytes → String → Except String (UInt32 × UInt32)) (additional : Duration)
    (now now' : UInt32) (name : String) (id : FileId) (bytes : Bytes) :
    (log.block? find additional now' name id bytes).map Block.timeless =
      (log.block? find additional now name id bytes).map Block.timeless := by
  rw [block?, block?, range?, range?]
  cases log.readable? name bytes with
  | none => rfl
  | some found =>
    cases log.hint? name bytes with
    | none => rfl
    | some asked =>
      dsimp only [Option.bind_some]
      cases find asked.1 asked.2 <;> rfl

theorem block?_eq_none_of_now (h : log.block? find additional now name id bytes = none) (now' : UInt32) :
    log.block? find additional now' name id bytes = none := by
  rw [← Option.map_eq_none_iff, timeless_block? find additional now now', h]
  rfl

theorem exists_block?_of_now (h : log.block? find additional now name id bytes = some b)
    (now' : UInt32) : ∃ b', log.block? find additional now' name id bytes = some b' ∧ b'.timeless = b.timeless := by
  rw [← Option.map_eq_some_iff, timeless_block? find additional now now', h]
  rfl

end

end Log

end WriteAhead

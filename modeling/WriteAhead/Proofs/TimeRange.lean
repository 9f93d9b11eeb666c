import WriteAhead.Proofs.Lookup
import WriteAhead.Proofs.Multimap
import WriteAhead.Proofs.Rescan
import WriteAhead.Proofs.Slack

/-!
The time range of a block. Main statements: over any appends it comes to the ranges of those that succeeded, as far as
these are trusted (`covers_grown`), and on this rest the bounds that it keeps to from the beginning of a block, new or
taken back (`spans_of_slack`).
-/

namespace WriteAhead

/-- A start that is further back than `reach` seconds becomes `now`. -/
def trustedStart (now : UInt32) (reach : Nat) (start : UInt32) : UInt32 :=
  if (start.toNat : ℤ) < now.toNat - reach then now else start

/-- An end that is further ahead than `reach` seconds becomes `now`. -/
def trustedStop (now : UInt32) (reach : Nat) (stop : UInt32) : UInt32 :=
  if (now.toNat : ℤ) + reach < stop.toNat then now else stop

section

variable (now : UInt32) (reach : Nat) {time : UInt32}

theorem adjustRange_ofSeconds {slack additional : UInt64} (hf : Fits now (.ofSeconds slack) (.ofSeconds additional))
    (start stop : UInt32) : adjustRange now (.ofSeconds slack) (.ofSeconds additional) start stop =
      (trustedStart now (slack.toNat + additional.toNat) start, trustedStop now slack.toNat stop) := by
  apply Prod.ext
  · rw [start_adjustRange hf, trustedStart, Duration.seconds_ofSeconds, Duration.seconds_ofSeconds]
    push_cast
    split <;> split <;> first | rfl | omega
  · rw [stop_adjustRange hf, trustedStop, Duration.seconds_ofSeconds]
    split <;> split <;> first | rfl | omega

theorem sub_le_trustedStart : (now.toNat : ℤ) - reach ≤ (trustedStart now reach time).toNat := by
  unfold trustedStart
  split <;> omega

theorem trustedStop_le_add : ((trustedStop now reach time).toNat : ℤ) ≤ now.toNat + reach := by
  unfold trustedStop
  split <;> omega

variable {now}

theorem trustedStart_le (h : time ≤ now) : trustedStart now reach time ≤ now := by
  unfold trustedStart
  split
  · exact UInt32.le_refl now
  · exact h

theorem le_trustedStop (h : now ≤ time) : now ≤ trustedStop now reach time := by
  unfold trustedStop
  split
  · exact UInt32.le_refl now
  · exact h

end

/-- The library has this for the lesser of two times only. -/
instance instLawfulOrderMaxUInt32 : Std.LawfulOrderMax UInt32 := by
  apply Std.LawfulOrderMax.of_max_le_iff
  · intro a b c
    rw [UInt32.le_iff_toNat_le, UInt32.le_iff_toNat_le, UInt32.le_iff_toNat_le, BlockMeta.toNat_max]
    exact Nat.max_le
  · intro a b
    rw [← UInt32.toNat_inj, ← UInt32.toNat_inj, BlockMeta.toNat_max]
    omega

section

variable {α : Type} {xs ys : List α}

theorem min?_concat [Min α] (xs : List α) (x : α) : (xs ++ [x]).min? = some (xs.min?.elim x (min · x)) := by
  cases xs with
  | nil => rfl
  | cons first rest =>
    rw [List.cons_append, List.min?_cons', List.min?_cons', List.foldl_append]
    rfl

theorem max?_concat [Max α] (xs : List α) (x : α) : (xs ++ [x]).max? = some (xs.max?.elim x (max · x)) := by
  cases xs with
  | nil => rfl
  | cons first rest =>
    rw [List.cons_append, List.max?_cons', List.max?_cons', List.foldl_append]
    rfl

variable [LE α] [Std.IsLinearOrder α]

theorem min?_eq_of_perm [Min α] [Std.LawfulOrderMin α] (h : xs.Perm ys) : xs.min? = ys.min? := by
  ext x
  simp only [List.min?_eq_some_iff, h.mem_iff]

theorem max?_eq_of_perm [Max α] [Std.LawfulOrderMax α] (h : xs.Perm ys) : xs.max? = ys.max? := by
  ext x
  simp only [List.max?_eq_some_iff, h.mem_iff]

end

/-- An object with its time range, and how clock and disk are when it is offered to a block. -/
structure Offer where
  id : Bytes
  object : Bytes
  start : UInt32
  stop : UInt32
  now : UInt32
  disk : Disk

namespace Offer

/-- Its time range as far as it is trusted. -/
def trusted (slack : Nat) (o : Offer) : UInt32 × UInt32 :=
  (trustedStart o.now slack o.start, trustedStop o.now slack o.stop)

def times (o : Offer) : UInt32 × UInt32 × UInt32 := (o.start, o.stop, o.now)

variable {offers : List Offer}

theorem now_le_of_head? (hclock : (offers.map (·.now)).Pairwise (· ≤ ·)) {first o : Offer}
    (hfirst : first ∈ offers.head?) (ho : o ∈ offers) : first.now ≤ o.now := by
  obtain ⟨rest, rfl⟩ := List.head?_eq_some_iff.1 hfirst
  obtain rfl | ho := List.mem_cons.1 ho
  · exact UInt32.le_refl _
  · exact (List.pairwise_cons.1 hclock).1 _ (List.mem_map_of_mem ho)

theorem now_le_of_getLast? (hclock : (offers.map (·.now)).Pairwise (· ≤ ·)) {last o : Offer}
    (hlast : last ∈ offers.getLast?) (ho : o ∈ offers) : o.now ≤ last.now := by
  obtain ⟨before, rfl⟩ := List.getLast?_eq_some_iff.1 hlast
  rw [List.map_append, List.map_singleton] at hclock
  obtain ho | ho := List.mem_append.1 ho
  · exact (List.pairwise_append.1 hclock).2.2 _ (List.mem_map_of_mem ho) _ List.mem_cons_self
  · rw [List.mem_singleton.1 ho]
    exact UInt32.le_refl _

end Offer

namespace BlockMeta

/-- The time range is what covers `ranges`, and unset if there are none. -/
structure Covers (m : BlockMeta) (ranges : List (UInt32 × UInt32)) : Prop where
  start : m.start = (ranges.map (·.1)).min?
  stop : m.stop = (ranges.map (·.2)).max?

variable {m : BlockMeta} {ranges : List (UInt32 × UInt32)} {range : UInt32 × UInt32}

theorem covers_add (h : m.Covers ranges) (range : UInt32 × UInt32) (length : Nat) :
    (m.add range.1 range.2 length).Covers (ranges ++ [range]) := by
  refine ⟨?_, ?_⟩
  · rw [List.map_append, List.map_singleton, min?_concat, ← h.start]
    rfl
  · rw [List.map_append, List.map_singleton, max?_concat, ← h.stop]
    rfl

theorem exists_of_start (h : m.Covers ranges) {start : UInt32} (hs : m.start = some start) :
    ∃ range ∈ ranges, range.1 = start := by
  rw [h.start, List.min?_eq_some_iff] at hs
  exact List.mem_map.1 hs.1

theorem exists_of_stop (h : m.Covers ranges) {stop : UInt32} (hs : m.stop = some stop) :
    ∃ range ∈ ranges, range.2 = stop := by
  rw [h.stop, List.max?_eq_some_iff] at hs
  exact List.mem_map.1 hs.1

theorem exists_start_le (h : m.Covers ranges) (hr : range ∈ ranges) :
    ∃ start, m.start = some start ∧ start ≤ range.1 := by
  have hmem := List.mem_map_of_mem (f := (·.1)) hr
  obtain ⟨start, hs⟩ := Option.isSome_iff_exists.1 (List.isSome_min?_of_mem hmem)
  exact ⟨start, h.start.trans hs, (List.min?_eq_some_iff.1 hs).2 _ hmem⟩

theorem exists_le_stop (h : m.Covers ranges) (hr : range ∈ ranges) :
    ∃ stop, m.stop = some stop ∧ range.2 ≤ stop := by
  have hmem := List.mem_map_of_mem (f := (·.2)) hr
  obtain ⟨stop, hs⟩ := Option.isSome_iff_exists.1 (List.isSome_max?_of_mem hmem)
  exact ⟨stop, h.stop.trans hs, (List.max?_eq_some_iff.1 hs).2 _ hmem⟩

end BlockMeta

namespace Block

variable [Codecs] {b : Block} {slack : UInt64} {ranges : List (UInt32 × UInt32)} {offers : List Offer}

def offer (b : Block) (o : Offer) : Appended := b.append o.id o.object o.start o.stop o.now o.disk

/-- The block after all offers, of which some may have failed. -/
def grown (b : Block) (offers : List Offer) : Block := offers.foldl (fun b o => (b.offer o).block) b

/-- The offers that succeed. -/
def accepted (b : Block) : List Offer → List Offer
  | [] => []
  | o :: offers =>
    match (b.offer o).result with
    | .ok () => o :: accepted (b.offer o).block offers
    | .error _ => accepted (b.offer o).block offers

theorem options_offer (b : Block) (o : Offer) : (b.offer o).block.options = b.options := by
  unfold offer append
  dsimp only
  split <;> rfl

theorem info_offer_of_error {o : Offer} {fault : Error} (h : (b.offer o).result = .error fault) :
    (b.offer o).block.info = b.info := by
  unfold offer append at h ⊢
  dsimp only at h ⊢
  split
  · rfl
  · next hr =>
    rw [hr] at h
    cases h

theorem exists_info_offer_of_ok (hs : b.options.slack = .ofSeconds slack) {o : Offer}
    (hf : o.now.toNat + slack.toNat < UInt64.size) (h : (b.offer o).result = .ok ()) :
    ∃ length, (b.offer o).block.info = b.info.add (o.trusted slack.toNat).1 (o.trusted slack.toNat).2 length := by
  have hadjust : adjustRange o.now b.options.slack .zero o.start o.stop = o.trusted slack.toNat := by
    rw [hs]
    exact @adjustRange_ofSeconds o.now slack 0 ⟨slack.toNat_lt, hf⟩ o.start o.stop
  unfold offer append at h ⊢
  dsimp only at h ⊢
  split
  · next hr =>
    rw [hr] at h
    cases h
  · next record hr =>
    dsimp only [adjust]
    rw [hadjust]
    exact ⟨_, rfl⟩

theorem covers_grown (hs : b.options.slack = .ofSeconds slack) (h : b.info.Covers ranges) {offers : List Offer}
    (hf : ∀ o ∈ b.accepted offers, o.now.toNat + slack.toNat < UInt64.size) :
    (b.grown offers).info.Covers (ranges ++ (b.accepted offers).map (Offer.trusted slack.toNat)) := by
  induction offers generalizing b ranges with
  | nil => rwa [accepted, List.map_nil, List.append_nil]
  | cons o offers ih =>
    have hs' : (b.offer o).block.options.slack = .ofSeconds slack := by rw [options_offer, hs]
    rw [accepted] at hf ⊢
    split at hf
    · next hok =>
      obtain ⟨hfirst, hrest⟩ := List.forall_mem_cons.1 hf
      obtain ⟨length, hinfo⟩ := exists_info_offer_of_ok hs hfirst hok
      rw [List.map_cons, List.append_cons]
      exact ih hs' (hinfo ▸ BlockMeta.covers_add h (o.trusted slack.toNat) length) hrest
    · next fault herror => exact ih hs' ((info_offer_of_error herror).symm ▸ h) hf

theorem sublist_accepted (b : Block) (offers : List Offer) : (b.accepted offers).Sublist offers := by
  induction offers generalizing b with
  | nil => exact .slnil
  | cons o offers ih =>
    rw [accepted]
    split
    · exact (ih _).cons_cons o
    · exact (ih _).cons o

/-- What becomes of the time range of a block, which at first is `derived` or unset, when it is offered `offers`. -/
structure Spans (b : Block) (slack : Nat) (derived : Option (UInt32 × UInt32)) (offers : List Offer) : Prop where
  covers : (b.grown offers).info.Covers (derived.toList ++ (b.accepted offers).map (Offer.trusted slack))
  failed : ∀ before o after fault, offers = before ++ o :: after → ((b.grown before).offer o).result = .error fault →
    ((b.grown before).offer o).block.info = (b.grown before).info
  anyOrder : ∀ offers', ((b.accepted offers').map Offer.times).Perm ((b.accepted offers).map Offer.times) →
    (b.grown offers').info.start = (b.grown offers).info.start ∧
      (b.grown offers').info.stop = (b.grown offers).info.stop
  /-- This is for a block that is new, and a clock that is never set back. -/
  notBefore : derived = none → (offers.map (·.now)).Pairwise (· ≤ ·) → ∀ first ∈ offers.head?,
    ∀ start ∈ (b.grown offers).info.start, (first.now.toNat : ℤ) - slack ≤ start.toNat
  notAfter : derived = none → (offers.map (·.now)).Pairwise (· ≤ ·) → ∀ last ∈ offers.getLast?,
    ∀ stop ∈ (b.grown offers).info.stop, (stop.toNat : ℤ) ≤ last.now.toNat + slack
  forward : ∀ o ∈ b.accepted offers, o.start ≤ o.now → o.now ≤ o.stop → ∃ start stop,
    (b.grown offers).info.start = some start ∧ (b.grown offers).info.stop = some stop ∧ start ≤ stop

theorem spans_of_covers {derived : Option (UInt32 × UInt32)} (hs : b.options.slack = .ofSeconds slack)
    (h : b.info.Covers derived.toList) (hf : ∀ o ∈ b.accepted offers, o.now.toNat + slack.toNat < UInt64.size) :
    b.Spans slack.toNat derived offers := by
  have hcovers := covers_grown hs h hf
  refine ⟨hcovers, fun before o after fault _ hfault => info_offer_of_error hfault, fun offers' hperm => ?_,
    fun hnew hclock first hfirst start hstart => ?_, fun hnew hclock last hlast stop hstop => ?_,
    fun o ho hstart hstop => ?_⟩
  · have hcovers' := covers_grown hs h fun o' ho' => by
      obtain ⟨o, ho, htimes⟩ := List.mem_map.1 (hperm.mem_iff.1 (List.mem_map_of_mem ho'))
      have hnow : o.now = o'.now := congrArg (·.2.2) htimes
      exact hnow ▸ hf o ho
    have htrusted : ((b.accepted offers').map (Offer.trusted slack.toNat)).Perm
        ((b.accepted offers).map (Offer.trusted slack.toNat)) := by
      have hmap := hperm.map fun times : UInt32 × UInt32 × UInt32 =>
        (trustedStart times.2.2 slack.toNat times.1, trustedStop times.2.2 slack.toNat times.2.1)
      rwa [List.map_map, List.map_map] at hmap
    have hranges := htrusted.append_left derived.toList
    rw [hcovers'.start, hcovers'.stop, hcovers.start, hcovers.stop]
    exact ⟨min?_eq_of_perm (hranges.map _), max?_eq_of_perm (hranges.map _)⟩
  · subst hnew
    obtain ⟨range, hrange, rfl⟩ := BlockMeta.exists_of_start hcovers hstart
    obtain ⟨o, ho, rfl⟩ := List.mem_map.1 hrange
    have hmem := (sublist_accepted b offers).subset ho
    have hnow := UInt32.le_iff_toNat_le.1 (Offer.now_le_of_head? hclock hfirst hmem)
    have htrusted := @sub_le_trustedStart o.now slack.toNat o.start
    dsimp only [Offer.trusted]
    omega
  · subst hnew
    obtain ⟨range, hrange, rfl⟩ := BlockMeta.exists_of_stop hcovers hstop
    obtain ⟨o, ho, rfl⟩ := List.mem_map.1 hrange
    have hmem := (sublist_accepted b offers).subset ho
    have hnow := UInt32.le_iff_toNat_le.1 (Offer.now_le_of_getLast? hclock hlast hmem)
    have htrusted := @trustedStop_le_add o.now slack.toNat o.stop
    dsimp only [Offer.trusted]
    omega
  · have hrange := List.mem_append_right derived.toList (List.mem_map_of_mem (f := Offer.trusted slack.toNat) ho)
    obtain ⟨start, hstarts, hle⟩ := BlockMeta.exists_start_le hcovers hrange
    obtain ⟨stop, hstops, hge⟩ := BlockMeta.exists_le_stop hcovers hrange
    have hnow := UInt32.le_trans (trustedStart_le slack.toNat hstart) (le_trustedStop slack.toNat hstop)
    exact ⟨start, stop, hstarts, hstops, UInt32.le_trans hle (UInt32.le_trans hnow hge)⟩

end Block

namespace Log

variable {log : Log} {derive : Deriver} {additional : Duration} {clock : Clock} {s : Rescan}

/-- The time range of the block was derived from its first record, and it is what of this was trusted when the block
was taken back from the file `name`. -/
structure Ranged (log : Log) (derive : Deriver) (additional : Duration) (clock : Clock) (name : String) (b : Block)
    (range : UInt32 × UInt32) : Prop where
  path : b.path = log.options.root ++ [name]
  options : b.options = log.options
  derived : ∃ first d d', b.index.head? = some first ∧ derive first.id b.descriptor.dataEncoding d = (.ok range, d')
  start : b.info.start = some (adjustRange (clock name) log.options.slack additional range.1 range.2).1
  stop : b.info.stop = some (adjustRange (clock name) log.options.slack additional range.1 range.2).2

theorem covers_of_newBlock {id : Uuid} {tenant dataEncoding : String} {d d' : Disk} {b : Block}
    (h : log.newBlock id tenant dataEncoding d = .ok (b, d')) : b.options = log.options ∧ b.info.Covers [] := by
  obtain ⟨descriptor, -, hcreate⟩ := create_of_newBlock h
  dsimp only [Block.create] at hcreate
  split at hcreate
  · cases hcreate
  · cases hcreate
    exact ⟨rfl, rfl, rfl⟩

theorem exists_of_ofReplay {descriptor : Descriptor} {path : Path} {r : Page.Replay} {options : Options} {d d' : Disk}
    {b : Block} (h : Block.ofReplay descriptor path r options d = (.ok b, d')) :
    ∃ file, b = Block.restored descriptor path r options file := by
  unfold Block.ofReplay at h
  split at h
  · cases h
  · split at h
    · cases h
      exact ⟨_, rfl⟩
    · cases h

theorem ranged_of_recover (name : String) (descriptor : Descriptor) {r : Page.Replay} {first : Record}
    (hfirst : r.records.head? = some first) :
    (log.recover name descriptor (log.options.root ++ [name]) r first derive additional clock s).2.blocks = s.blocks ∧
      ∀ b, (log.recover name descriptor (log.options.root ++ [name]) r first derive additional clock s).1 = .ok b →
        ∃ range, Ranged log derive additional clock name b range := by
  obtain ⟨events, hnoted⟩ := exists_note s (r.warning.isSome = true) (.damagedTail name r.records.length)
  unfold recover
  rw [hnoted]
  dsimp only
  cases hderive : derive first.id descriptor.dataEncoding s.disk with
  | mk range disk =>
    cases range with
    | error reason => exact ⟨rfl, by rintro b ⟨⟩⟩
    | ok range =>
      dsimp only
      cases hreplay : Block.ofReplay descriptor (log.options.root ++ [name]) r log.options disk with
      | mk block disk' =>
        cases block with
        | error fault => exact ⟨rfl, by rintro b ⟨⟩⟩
        | ok block =>
          obtain ⟨file, rfl⟩ := exists_of_ofReplay hreplay
          refine ⟨rfl, ?_⟩
          rintro b ⟨⟩
          exact ⟨range, rfl, rfl, ⟨first, s.disk, disk, hfirst, hderive⟩, rfl, rfl⟩

/-- Of what comes of a file, only a block is kept. -/
theorem mem_blocks_settle_iff {name : String} {path : Path} {result : Except Error (Option Block)} {b : Block} :
    b ∈ (settle name path (result, s)).blocks ↔ b ∈ s.blocks ∨ result = .ok (some b) := by
  have hremove (event : Event) : ((s.note event).remove path).blocks = s.blocks := (remove_cases _ path).1
  cases result with
  | ok found =>
    cases found with
    | some found => simp [settle, Rescan.note, or_comm, eq_comm]
    | none => simp [settle, hremove]
  | error fault =>
    cases fault with
    | io => simp [settle, Rescan.note]
    | _ => simp [settle, hremove]

section

variable [Codecs]

theorem ranged_of_replayFile (name : String) :
    (log.replayFile name (log.options.root ++ [name]) derive additional clock s).2.blocks = s.blocks ∧
      ∀ b, (log.replayFile name (log.options.root ++ [name]) derive additional clock s).1 = .ok (some b) →
        ∃ range, Ranged log derive additional clock name b range := by
  unfold replayFile
  split
  · exact ⟨rfl, by rintro b ⟨⟩⟩
  · split
    · exact ⟨rfl, by rintro b ⟨⟩⟩
    · split
      · exact ⟨rfl, by rintro b ⟨⟩⟩
      · split
        · exact ⟨rfl, by rintro b ⟨⟩⟩
        · next descriptor _ _ _ _ _ r _ _ first rest hrecords =>
          have hfirst : r.records.head? = some first := by rw [hrecords, List.head?_cons]
          obtain ⟨hblocks, hranged⟩ := ranged_of_recover name descriptor hfirst
          refine ⟨hblocks, fun b hb => ?_⟩
          obtain ⟨found, hfound, hsome⟩ := map_eq_ok_iff.1 hb
          cases hsome
          exact hranged _ hfound

/-- A visit adds no block but one with its time range. -/
theorem mem_or_ranged_of_visit {entry : String × Node} {b : Block}
    (h : b ∈ (log.visit derive additional clock s entry).blocks) :
    b ∈ s.blocks ∨ ∃ name range, Ranged log derive additional clock name b range := by
  obtain ⟨name, node⟩ := entry
  by_cases hn : node = .directory
  · left
    simpa [visit, hn] using h
  · rw [visit_of_ne additional clock hn] at h
    obtain ⟨hblocks, hranged⟩ :=
      @ranged_of_replayFile log derive additional clock (s.note (.beginningReplay name)) _ name
    rw [mem_blocks_settle_iff, hblocks] at h
    exact h.imp_right fun hb => ⟨name, hranged b hb⟩

theorem mem_or_ranged_of_foldl {entries : List (String × Node)} {b : Block}
    (h : b ∈ (entries.foldl (log.visit derive additional clock) s).blocks) :
    b ∈ s.blocks ∨ ∃ name range, Ranged log derive additional clock name b range := by
  induction entries generalizing s with
  | nil => exact .inl h
  | cons entry entries ih =>
    obtain h | h := ih h
    · exact mem_or_ranged_of_visit h
    · exact .inr h

theorem ranged_of_rescan {d : Disk} (h : log.rescan derive additional clock d = .ok s) {b : Block} (hb : b ∈ s.blocks) :
    ∃ name range, Ranged log derive additional clock name b range := by
  unfold rescan at h
  split at h
  · cases h
  · cases h
    obtain hb | hb := mem_or_ranged_of_foldl hb
    · cases hb
    · exact hb

/-- Over any appends to a block, new or taken back, the time range is kept as it is to be, if no sum with the slack
overflows. -/
theorem spans_of_slack {slack : UInt64} (h : log.options.slack = .ofSeconds slack) :
    (∀ id tenant dataEncoding d b d', log.newBlock id tenant dataEncoding d = .ok (b, d') →
      ∀ offers, (∀ o ∈ b.accepted offers, o.now.toNat + slack.toNat < UInt64.size) → b.Spans slack.toNat none offers) ∧
    ∀ derive additional clock d s, slack.toNat + additional.toNat < UInt64.size →
      log.rescan derive (.ofSeconds additional) clock d = .ok s → ∀ b ∈ s.blocks,
      ∃ name start stop, b.path = log.options.root ++ [name] ∧
        (∃ first d d', b.index.head? = some first ∧
          derive first.id b.descriptor.dataEncoding d = (.ok (start, stop), d')) ∧
        ((clock name).toNat + slack.toNat < UInt64.size →
          ∀ offers, (∀ o ∈ b.accepted offers, o.now.toNat + slack.toNat < UInt64.size) →
            b.Spans slack.toNat (some (trustedStart (clock name) (slack.toNat + additional.toNat) start,
              trustedStop (clock name) slack.toNat stop)) offers) := by
  constructor
  · intro id tenant dataEncoding d b d' hnew offers
    obtain ⟨hoptions, hcovers⟩ := covers_of_newBlock hnew
    exact Block.spans_of_covers (hoptions ▸ h) hcovers
  · intro derive additional clock d s hback hs b hb
    obtain ⟨name, ⟨start, stop⟩, hranged⟩ := ranged_of_rescan hs hb
    refine ⟨name, start, stop, hranged.path, hranged.derived, fun hahead offers => ?_⟩
    have hadjust := adjustRange_ofSeconds (clock name) ⟨hback, hahead⟩ start stop
    rw [← h] at hadjust
    refine Block.spans_of_covers (hranged.options ▸ h) ⟨?_, ?_⟩
    · rw [hranged.start, hadjust]
      rfl
    · rw [hranged.stop, hadjust]
      rfl

end

theorem spans_sample :
    (∃ b d, Log.newBlock ⟨{ root := ["wal"], encoding := .none }⟩ .zero "t" "" { entries := [(["wal"], .directory)] } =
      .ok (b, d) ∧ b.Spans 120 none [⟨[7], [8], 0, 5000, 1000, d⟩] ∧ b.accepted [⟨[7], [8], 0, 5000, 1000, d⟩] ≠ []) ∧
    ∃ s, Log.rescan ⟨{ root := ["wal"], encoding := .none }⟩ (.ofPure fun _ _ => .ok (0, 0)) (.ofSeconds 60)
        (fun _ => 1000) sampleDisk = .ok s ∧ ∃ b ∈ s.blocks, ∃ range, b.Spans 120 (some range) [] := by
  have hspans := @spans_of_slack ⟨{ root := ["wal"], encoding := .none }⟩ _ 120 rfl
  constructor
  · have hcreate : Descriptor.create .zero "t" .none "" = .ok ⟨.zero, "t", .none, ""⟩ := rfl
    have hplain : Disk.IsPlain (Descriptor.filename ⟨.zero, "t", .none, ""⟩) := ⟨by decide, by decide, by decide⟩
    have hfree : Disk.find? { entries := [(["wal"], .directory)] } true _ = .ok (_, none) :=
      Disk.find?_name_of_ne_link Block.isHome_wal hplain (by decide) (by rintro _ ⟨⟩)
    obtain ⟨b, hnew, hdescriptor, -, hpath, hcalm⟩ :=
      @newBlock_of_find? ⟨{ root := ["wal"], encoding := .none }⟩ _ _ _ _ _ _ hcreate hfree
    have hlive := Block.live_of_created hnew (hpath ▸ hfree)
    have hbuild : Page.build b.descriptor.encoding [7] [8] = .ok (⟨2831807814, .none, 6, 6⟩, [1, 0, 0, 0, 7, 8]) := by
      rw [hdescriptor]
      exact Page.build_sample
    refine ⟨b, _, hnew, hspans.1 _ _ _ _ _ _ hnew _ fun o ho => ?_, ?_⟩
    · cases List.mem_singleton.1 ((Block.sublist_accepted b _).subset ho)
      decide
    · rw [Block.accepted, Block.offer, Block.append_eq_ok hlive hcalm hbuild 0 5000 1000]
      exact List.cons_ne_nil _ _
  · obtain ⟨s, hs, hrescanned⟩ := @exists_rescanned _ ⟨{ root := ["wal"], encoding := .none }⟩ (fun _ _ => .ok (0, 0))
      (.ofSeconds 60) (fun _ => 1000) _ _ (Nat.succ_pos _) isRegular_sampleDisk
    have hfound : (block? ⟨{ root := ["wal"], encoding := .none }⟩ (fun _ _ => .ok (0, 0)) (.ofSeconds 60) 1000
        (Descriptor.filename ⟨.zero, "t", .none, ""⟩) 0 (Page.samplePage ++ [84])).isSome = true := by decide +kernel
    obtain ⟨b, hblock⟩ := Option.isSome_iff_exists.1 hfound
    have hb : b ∈ s.blocks :=
      hrescanned.blocks.mem_iff.2 (List.mem_filterMap.2 ⟨(_, .file 0), List.mem_cons_self, hblock⟩)
    obtain ⟨name, start, stop, -, -, hspans⟩ := hspans.2 _ 60 _ _ _ (by decide) hs b hb
    exact ⟨s, hs, b, hb, _, hspans (by decide) [] fun o ho => by cases ho⟩

end Log

end WriteAhead

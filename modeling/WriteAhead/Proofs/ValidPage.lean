import WriteAhead.Page.Reader
import WriteAhead.Page.Writer

/-!
Valid pages, as a condition on bytes alone, and what reading makes of them. Main statements: reading
at the front of some bytes succeeds exactly if these begin with a valid page (`isPage_of_next`,
`next_of_isPage`), of which there is then only one (`eq_of_isPage_append`), and what is written for
an object is a valid page (`isPage_of_build`).
-/

namespace WriteAhead.Page

/-- Bytes that are a page of encoding `e` with an object under an id. What the reserved bytes are
does not matter. -/
inductive IsPage [Codecs] (e : Encoding) : (page id object : Bytes) → Prop
  | intro {h : Header} {reserved payload body id object : Bytes} (encoding : h.encoding = e)
      (reserved_length : reserved.length = 3) (disk_size : payload.length = h.diskSize.toNat)
      (crc : checksum e h.bodySize payload = h.crc) (unpacks : e.decompress payload = some body)
      (body_size : body.length = h.bodySize.toNat) (decodes : Body.decode body = .ok (id, object)) :
      IsPage e (h.laidOut reserved ++ payload) id object

section

variable [Codecs] {e : Encoding}

theorem unpack_eq_ok {offset : Nat} {h : Header} {payload : Bytes} {page : Content}
    (hu : unpack offset h payload = .ok page) :
    checksum h.encoding h.bodySize payload = h.crc ∧ ∃ body, h.encoding.decompress payload = some body ∧
      body.length = h.bodySize.toNat ∧ Body.decode body = .ok (page.id, page.object) ∧ page.header = h := by
  unfold unpack at hu
  by_cases hc : checksum h.encoding h.bodySize payload = h.crc
  · rw [if_neg (not_not_intro hc)] at hu
    cases hd : h.encoding.decompress payload with
    | none =>
      rw [hd] at hu
      cases hu
    | some body =>
      rw [hd] at hu
      by_cases hs : body.length = h.bodySize.toNat
      · dsimp only at hu
        rw [if_neg (not_not_intro hs)] at hu
        cases hb : Body.decode body with
        | error fault =>
          rw [hb] at hu
          cases hu
        | ok pair =>
          rw [hb] at hu
          cases hu
          exact ⟨hc, body, rfl, hs, hb, rfl⟩
      · dsimp only at hu
        rw [if_pos hs] at hu
        cases hu
  · rw [if_pos hc] at hu
    cases hu

theorem unpack_of_decode {offset : Nat} {h : Header} {payload body id object : Bytes}
    (hc : checksum h.encoding h.bodySize payload = h.crc) (hu : h.encoding.decompress payload = some body)
    (hs : body.length = h.bodySize.toNat) (hd : Body.decode body = .ok (id, object)) :
    unpack offset h payload = .ok ⟨h, id, object⟩ := by
  unfold unpack
  rw [if_neg (not_not_intro hc), hu]
  dsimp only
  rw [if_neg (not_not_intro hs), hd]
  rfl

theorem isPage_of_next {offset : Nat} {fileLength : Option Nat} {input rest : Bytes} {page : Content}
    (h : next e offset fileLength input = .ok (page, rest)) :
    ∃ p, input = p ++ rest ∧ IsPage e p page.id page.object ∧ page.header.pageLength = p.length := by
  unfold next at h
  split at h
  · cases h
  · next header mid hr =>
    split at h
    · cases h
    · next he =>
      split at h
      · cases h
      · split at h
        · cases h
        · next payload tail hc =>
          obtain ⟨reserved, hres, rfl⟩ := Header.eq_of_read hr
          obtain ⟨rfl, hlen⟩ := Bytes.cut?_eq_some_iff.1 hc
          cases hu : unpack offset header payload with
          | error fault =>
            rw [hu] at h
            cases h
          | ok content =>
            rw [hu] at h
            cases h
            have he := Decidable.of_not_not he
            obtain ⟨hcrc, body, hd, hsize, hdecode, hh⟩ := unpack_eq_ok hu
            rw [he] at hcrc hd
            refine ⟨header.laidOut reserved ++ payload, (List.append_assoc _ _ _).symm, ?_, ?_⟩
            · exact .intro he hres hlen hcrc hd hsize hdecode
            · rw [hh, List.length_append, Header.length_laidOut header hres, hlen, Header.pageLength]

/-- A valid page is read, unless it goes beyond the length that the file is said to have. -/
theorem next_of_isPage {p id object : Bytes} (hp : IsPage e p id object) (offset : Nat) (fileLength : Option Nat)
    (hl : ∀ n ∈ fileLength, offset + p.length ≤ n) (rest : Bytes) :
    ∃ h : Header, h.pageLength = p.length ∧ next e offset fileLength (p ++ rest) = .ok (⟨h, id, object⟩, rest) := by
  cases hp with
  | intro he hres hdisk hcrc hd hsize hdecode =>
    next h reserved payload body =>
    have hlen : (h.laidOut reserved ++ payload).length = h.pageLength := by
      rw [List.length_append, Header.length_laidOut h hres, hdisk, Header.pageLength]
    have hany : ¬ fileLength.any (· < offset + h.pageLength) := by
      rw [hlen] at hl
      cases fileLength with
      | none => simp
      | some n => simpa using hl n rfl
    have hcut := Bytes.cut?_append payload rest
    rw [hdisk] at hcut
    subst he
    refine ⟨h, hlen.symm, ?_⟩
    rw [List.append_assoc, next, Header.read_laidOut h hres]
    dsimp only
    rw [if_neg (not_not_intro rfl), if_neg hany, hcut]
    dsimp only
    rw [unpack_of_decode hcrc hd hsize hdecode]
    rfl

theorem headerSize_le_length {p id object : Bytes} (hp : IsPage e p id object) : headerSize ≤ p.length := by
  cases hp with
  | intro _ hres =>
    rw [List.length_append, Header.length_laidOut _ hres]
    exact Nat.le_add_right _ _

/-- Of the beginnings of some bytes, at most one is a valid page. -/
theorem eq_of_isPage_append {p q r s id id' object object' : Bytes} (hp : IsPage e p id object)
    (hq : IsPage e q id' object') (h : p ++ r = q ++ s) : p = q ∧ r = s ∧ id = id' ∧ object = object' := by
  obtain ⟨_, _, hnp⟩ := next_of_isPage hp 0 none (by simp) r
  obtain ⟨_, _, hnq⟩ := next_of_isPage hq 0 none (by simp) s
  rw [h, hnq] at hnp
  cases hnp
  exact ⟨List.append_cancel_right h, rfl, rfl, rfl⟩

theorem read_of_isPage {p id object : Bytes} (hp : IsPage e p id object) (rest : Bytes) :
    ∃ h mid, h.encoding = e ∧ Header.read (p ++ rest) = (.ok h, mid) := by
  cases hp with
  | intro he hres =>
    exact ⟨_, _, he, by rw [List.append_assoc, Header.read_laidOut _ hres]⟩

theorem encoding_eq_of_isPage_append {e' : Encoding} {p q r s id id' object object' : Bytes}
    (hp : IsPage e p id object) (hq : IsPage e' q id' object') (h : p ++ r = q ++ s) : e = e' := by
  obtain ⟨_, _, he, hrp⟩ := read_of_isPage hp r
  obtain ⟨_, _, he', hrq⟩ := read_of_isPage hq s
  rw [h, hrq] at hrp
  cases hrp
  exact he.symm.trans he'

/-- A proper beginning of a valid page does not begin with a valid page. -/
theorem not_isPage_of_torn {page torn id object : Bytes} (hpage : IsPage e page id object) (ht : torn <+: page)
    (hne : torn ≠ page) {p id' object' : Bytes} (hp : p <+: torn) : ¬ IsPage e p id' object' := by
  intro hv
  obtain ⟨r, hr⟩ := hp.trans ht
  obtain ⟨rfl, -⟩ := eq_of_isPage_append hv hpage (by rw [hr, List.append_nil])
  exact hne (ht.eq_of_length_le hp.length_le)

theorem build_eq_ok {id object payload : Bytes} {h : Header} (hb : build e id object = .ok (h, payload)) :
    ∃ body, Body.encode id object = .ok body ∧ body.length = h.bodySize.toNat ∧ e.compress body = some payload ∧
      payload.length = h.diskSize.toNat ∧ h.encoding = e ∧ checksum e h.bodySize payload = h.crc ∧
        h.pageLength < UInt32.size := by
  unfold build at hb
  cases henc : Body.encode id object with
  | error fault =>
    rw [henc] at hb
    cases hb
  | ok body =>
    rw [henc] at hb
    cases hbody : checkedLength body.length "Object" with
    | error fault =>
      simp only [bind, Except.bind, hbody] at hb
      cases hb
    | ok bodySize =>
      cases hcomp : e.compress body with
      | none =>
        simp only [bind, Except.bind, hbody, hcomp] at hb
        cases hb
      | some packed =>
        cases hdisk : checkedLength packed.length "Compressed object" with
        | error fault =>
          simp only [bind, Except.bind, hbody, hcomp, hdisk] at hb
          cases hb
        | ok diskSize =>
          simp only [bind, Except.bind, hbody, hcomp, hdisk] at hb
          split at hb
          · cases hb
          · next hpage =>
            cases hb
            exact ⟨body, rfl, (eq_of_checkedLength hbody).1.symm, hcomp, (eq_of_checkedLength hdisk).1.symm, rfl, rfl,
              (eq_of_checkedLength hpage).2⟩

/-- What is written for an object is a valid page that holds it. -/
theorem isPage_of_build {id object payload : Bytes} {h : Header} (hb : build e id object = .ok (h, payload)) :
    IsPage e (h.toBytes ++ payload) id object := by
  obtain ⟨body, henc, hsize, hcomp, hdisk, he, hcrc, -⟩ := build_eq_ok hb
  exact .intro he rfl hdisk hcrc (Encoding.decompress_compress hcomp) hsize (Body.decode_encode henc)

theorem length_of_build {id object payload : Bytes} {h : Header} (hb : build e id object = .ok (h, payload)) :
    (h.toBytes ++ payload).length = h.pageLength ∧ h.pageLength < UInt32.size := by
  obtain ⟨body, -, -, -, hdisk, -, -, hlt⟩ := build_eq_ok hb
  refine ⟨?_, hlt⟩
  rw [List.length_append, Header.toBytes, Header.length_laidOut h rfl, hdisk, Header.pageLength]

end

/-- A page that holds `[8]` under `[7]`, byte by byte. -/
def samplePage : Bytes :=
  [84, 87, 65, 76, 70, 245, 201, 168, 0, 0, 0, 0, 6, 0, 0, 0, 6, 0, 0, 0, 1, 0, 0, 0, 7, 8]

theorem checksum_sample : checksum .none 6 [1, 0, 0, 0, 7, 8] = 2831807814 := by decide +kernel

theorem build_sample : build .none [7] [8] = .ok (⟨2831807814, .none, 6, 6⟩, [1, 0, 0, 0, 7, 8]) := by
  have hb : build .none [7] [8] = .ok (⟨checksum .none 6 [1, 0, 0, 0, 7, 8], .none, 6, 6⟩, [1, 0, 0, 0, 7, 8]) := rfl
  rw [hb, checksum_sample]

theorem isPage_sample : IsPage .none samplePage [7] [8] := isPage_of_build build_sample

end WriteAhead.Page

import StepScript.Proofs.Marker.Scan
import StepScript.Text.Utf8

/-!
# Splice — the markers of a text replaced by other texts

A text in pieces is put together again piece by piece.  The same text is spliced from bytes: what stands
between the markers is copied from the bytes of the text, and each marker is left out for another text.

* `Marker.slice` and `Marker.splice` work on bytes and on the places that `Marker.find` returns;
* `Marker.encode_fill`: both ways lead to the same bytes;
* `Marker.isMarker_iff`: a text is one piece, a marker, if that takes all of its bytes.
-/

namespace StepScript

namespace Marker

variable {cs : List Char} {ps : List Piece} {bytes front : List UInt8} {start last : Nat}

/-- The bytes from one place up to another. -/
def slice (bytes : List UInt8) (start stop : Nat) : List UInt8 :=
  (bytes.take stop).drop start

/-- The bytes of a text from one place on, with the markers left out for other texts, in order. -/
def splice (bytes : List UInt8) : Nat → List Found → List String → List UInt8
  | last, m :: ms, t :: ts => slice bytes last m.start ++ Utf8.encode t ++ splice bytes m.stop ms ts
  | last, _, _ => bytes.drop last

/-- A text is one marker and nothing else. -/
def IsMarker (text : String) : Prop :=
  ∃ m, find text = [m] ∧ m.start = 0 ∧ m.stop = (Utf8.encode text).length

/-! ## The bytes of characters -/

def encodeChars (cs : List Char) : List UInt8 :=
  cs.flatMap String.utf8EncodeChar

/-- The bytes of a text are those of its characters, one after the other. -/
theorem encode_ofList (cs : List Char) : Utf8.encode (String.ofList cs) = encodeChars cs := by
  simp [Utf8.encode, encodeChars]

@[simp] theorem encodeChars_append (cs ds : List Char) :
    encodeChars (cs ++ ds) = encodeChars cs ++ encodeChars ds :=
  List.flatMap_append

/-- Counting bytes agrees with encoding. -/
theorem length_encodeChars (cs : List Char) : (encodeChars cs).length = byteCount cs := by
  induction cs with
  | nil => rfl
  | cons c cs ih =>
    have hcons : encodeChars (c :: cs) = String.utf8EncodeChar c ++ encodeChars cs :=
      List.flatMap_cons
    rw [hcons, List.length_append, ih, String.length_utf8EncodeChar, byteCount]

theorem length_encode (text : String) : (Utf8.encode text).length = byteCount text.toList :=
  length_encodeChars text.toList

/-- Texts of the same bytes are the same. -/
theorem encode_injective : Function.Injective Utf8.encode := by
  intro text other h
  have hbytes : text.toList.utf8Encode = other.toList.utf8Encode := congrArg List.toByteArray h
  rwa [String.utf8Encode_toList, String.utf8Encode_toList, String.toByteArray_inj] at hbytes

/-! ## Slices -/

theorem slice_self (bytes : List UInt8) (start : Nat) : slice bytes start start = [] := by
  have hlength : (bytes.take start).length ≤ start := List.length_take_le _ _
  exact List.drop_eq_nil_of_le hlength

/-- A slice grows by the characters that stand behind it. -/
theorem slice_grow {behind : List UInt8} (hlast : last ≤ front.length) :
    slice (front ++ encodeChars cs ++ behind) last (front.length + byteCount cs) =
      slice (front ++ encodeChars cs ++ behind) last front.length ++ encodeChars cs := by
  have hlength : (front ++ encodeChars cs).length = front.length + byteCount cs := by
    rw [List.length_append, length_encodeChars]
  have hwhole : (front ++ encodeChars cs ++ behind).take (front.length + byteCount cs) =
      front ++ encodeChars cs := List.take_left' hlength
  have hfront : (front ++ encodeChars cs ++ behind).take front.length = front := by
    rw [List.append_assoc]
    exact List.take_left' rfl
  rw [slice, slice, hwhole, hfront, List.drop_append_of_le_length hlast]

theorem eq_nil_of_byteCount_eq_zero (h : byteCount cs = 0) : cs = [] := by
  by_contra hne
  exact absurd (byteCount_pos hne) (by omega)

/-! ## Pieces -/

def sources (ps : List Piece) : List Char :=
  ps.flatMap Piece.source

/-- A plain character in front is the first one of what was cut. -/
theorem sources_consPlain (c : Char) (ps : List Piece) :
    sources (consPlain c ps) = c :: sources ps := by
  unfold consPlain
  split
  · simp [sources, Piece.source]
  · simp [sources, Piece.source]

/-- Cutting loses nothing: the pieces put together are the text. -/
theorem sources_piecesFrom {fuel : Nat} (h : cs.length ≤ fuel) :
    sources (piecesFrom fuel cs) = cs := by
  induction fuel generalizing cs with
  | zero =>
    obtain rfl : cs = [] := List.eq_nil_of_length_eq_zero (Nat.le_zero.1 h)
    rfl
  | succ fuel ih =>
    cases cs with
    | nil => rfl
    | cons c cs =>
      cases hfirst : first? (c :: cs) with
      | none =>
        have hrest : sources (piecesFrom fuel cs) = cs := ih (Nat.le_of_succ_le_succ h)
        simp [piecesFrom, hfirst, sources_consPlain, hrest]
      | some b =>
        obtain ⟨code, after⟩ := b
        have htext : c :: cs = '$' :: '(' :: (code ++ ')' :: after) :=
          (first?_eq_some_iff.1 hfirst).1
        have hlength : after.length ≤ fuel := by
          have hcount := congrArg List.length htext
          simp only [List.length_cons, List.length_append] at hcount h
          omega
        have hrest : sources (piecesFrom fuel after) = after := ih hlength
        have hpieces : piecesFrom (fuel + 1) (c :: cs) = .marker code :: piecesFrom fuel after := by
          simp [piecesFrom, hfirst]
        calc sources (piecesFrom (fuel + 1) (c :: cs))
            = (Piece.marker code).source ++ after := by
              rw [hpieces, sources, List.flatMap_cons, ← sources, hrest]
          _ = c :: cs := by simp [Piece.source, htext]

/-- Text that is one marker is cut into that. -/
theorem piecesFrom_of_first? {code : List Char} (h : first? cs = some (code, [])) :
    piecesFrom cs.length cs = [.marker code] := by
  cases cs with
  | nil => simp [first?] at h
  | cons c cs =>
    have hend (fuel : Nat) : piecesFrom fuel [] = [] := by cases fuel <;> rfl
    simp [piecesFrom, h, hend]

/-- Nothing of a text is lost when it is cut. -/
theorem sources_pieces (text : String) : sources (pieces text) = text.toList :=
  sources_piecesFrom (Nat.le_refl _)

/-- Locating markers keeps their codes. -/
theorem map_code_locate (start : Nat) (ps : List Piece) :
    (locate start ps).map Found.code = codes ps := by
  induction ps generalizing start with
  | nil => rfl
  | cons p ps ih =>
    cases p with
    | plain cs => simp [locate, codes, ih]
    | marker code => simp [locate, codes, ih]

/-- The codes of a text are those of the markers that are found. -/
theorem map_code_find (text : String) : (find text).map Found.code = codes (pieces text) :=
  map_code_locate 0 (pieces text)

/-! ## Filling in -/

/-- Pieces behind some bytes are filled in as the bytes from there on are spliced. -/
theorem splice_locate {texts : List String} (htexts : (codes ps).length = texts.length)
    (hbytes : bytes = front ++ encodeChars (sources ps)) (hlast : last ≤ front.length) :
    splice bytes last (locate front.length ps) texts =
      slice bytes last front.length ++ encodeChars (fill ps texts) := by
  -- by induction on the pieces; what a plain piece adds is part of the slice in front of a marker
  induction ps generalizing front last texts with
  | nil =>
    have hnone : encodeChars (sources []) = [] := rfl
    have hall : bytes.take front.length = bytes := by
      rw [hbytes, hnone, List.append_nil, List.take_length]
    have hend : splice bytes last (locate front.length []) texts = bytes.drop last := by
      simp [locate, splice]
    rw [hend, slice, hall]
    simp [fill, encodeChars]
  | cons p ps ih =>
    have hsplit : bytes = front ++ encodeChars p.source ++ encodeChars (sources ps) := by
      rw [hbytes, sources, List.flatMap_cons, encodeChars_append, ← sources, List.append_assoc]
    have hlength : (front ++ encodeChars p.source).length = front.length + byteCount p.source := by
      rw [List.length_append, length_encodeChars]
    cases p with
    | plain cs =>
      have hrest := ih htexts hsplit (Nat.le_trans hlast (by omega))
      rw [hlength] at hrest
      calc splice bytes last (locate front.length (.plain cs :: ps)) texts
          = splice bytes last (locate (front.length + byteCount cs) ps) texts := by rw [locate]
        _ = slice bytes last (front.length + byteCount cs) ++ encodeChars (fill ps texts) := hrest
        _ = slice bytes last front.length ++ encodeChars cs ++ encodeChars (fill ps texts) := by
            rw [hsplit]
            exact congrArg (· ++ _) (slice_grow hlast)
        _ = slice bytes last front.length ++ encodeChars (fill (.plain cs :: ps) texts) := by
            rw [fill, encodeChars_append, List.append_assoc]
    | marker code =>
      cases texts with
      | nil => simp [codes] at htexts
      | cons t texts =>
        have hcount : (codes ps).length = texts.length := by simpa [codes] using htexts
        have hrest := ih hcount hsplit (Nat.le_refl _)
        rw [hlength, slice_self, List.nil_append] at hrest
        calc splice bytes last (locate front.length (.marker code :: ps)) (t :: texts)
            = slice bytes last front.length ++ Utf8.encode t ++
                encodeChars (fill ps texts) := by rw [locate, splice, hrest]
          _ = slice bytes last front.length ++
                encodeChars (fill (.marker code :: ps) (t :: texts)) := by
              rw [fill, encodeChars_append, List.append_assoc]
              rfl

/-- To fill in the pieces of a text is to splice its bytes. -/
theorem encode_fill {text : String} {texts : List String}
    (h : (find text).length = texts.length) :
    Utf8.encode (String.ofList (fill (pieces text) texts)) =
      splice (Utf8.encode text) 0 (find text) texts := by
  have hcount : (codes (pieces text)).length = texts.length := by
    rw [← map_code_find, List.length_map, h]
  have hbytes : Utf8.encode text = [] ++ encodeChars (sources (pieces text)) := by
    rw [sources_pieces]
    rfl
  have hsplice := splice_locate hcount hbytes (Nat.le_refl 0)
  rw [encode_ofList]
  simpa [slice, find] using hsplice.symm

/-- A text is one marker exactly if it is cut into one piece, a marker. -/
theorem isMarker_iff {text : String} : IsMarker text ↔ ∃ code, pieces text = [.marker code] := by
  constructor
  · rintro ⟨m, hfind, hstart, hstop⟩
    have hscan : IsScan text.toList 0 [m] := (find_eq_iff text [m]).1 hfind
    obtain ⟨before, after, htext, hcode, hbefore, hend⟩ := (hscan.stands m List.mem_cons_self).1
    -- the marker takes all bytes, so nothing stands in front of it or behind it
    have hcount : byteCount text.toList = byteCount before + byteCount m.source + byteCount after := by
      rw [htext, byteCount_append, byteCount_append]
    rw [length_encode] at hstop
    have hnone : before = [] := eq_nil_of_byteCount_eq_zero (by omega)
    have hempty : after = [] := eq_nil_of_byteCount_eq_zero (by omega)
    have hsource : text.toList = m.source := by simpa [hnone, hempty] using htext
    have hread : first? m.source = some (m.code.toList, []) :=
      first?_eq_some_iff.2 ⟨by simp [Found.source, Piece.source], hcode⟩
    refine ⟨m.code.toList, ?_⟩
    rw [pieces, hsource]
    exact piecesFrom_of_first? hread
  · rintro ⟨code, hpieces⟩
    have hfind : find text = [⟨0, 0 + byteCount (Piece.marker code).source, String.ofList code⟩] := by
      rw [find, hpieces]
      rfl
    have htext : text.toList = (Piece.marker code).source := by
      rw [← sources_pieces, hpieces]
      simp [sources]
    refine ⟨_, hfind, rfl, ?_⟩
    rw [length_encode, htext, Nat.zero_add]

end Marker

end StepScript

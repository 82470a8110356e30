import Mathlib.Data.List.Infix
import Mathlib.Tactic.ByContra
import StepScript.Proofs.Marker.Occurrence

/-!
# Scan — where the markers of a text stand

`Marker.Found.StandsIn` says that a text holds a marker at some bytes.  Markers may stand inside of each
other; a scan takes the leftmost one and goes on behind it.

* `Marker.IsScan` describes a scan without saying how it is made: its markers stand in the text, one
  behind the other, and every other marker begins inside of one of them;
* `Marker.find_eq_iff`: a text has exactly one scan, which is what `Marker.find` returns.
-/

namespace StepScript

namespace Marker

variable {text before after cs : List Char} {m n : Found} {ms ns : List Found} {start : Nat}

/-! ## Bytes -/

@[simp] theorem byteCount_append (cs ds : List Char) :
    byteCount (cs ++ ds) = byteCount cs + byteCount ds := by
  induction cs with
  | nil => simp [byteCount]
  | cons c cs ih => simp [byteCount, ih, Nat.add_assoc]

theorem byteCount_pos (h : cs ≠ []) : 0 < byteCount cs := by
  cases cs with
  | nil => exact absurd rfl h
  | cons c cs =>
    have hc : 0 < c.utf8Size := c.utf8Size_pos
    simp only [byteCount]
    omega

/-- Of two places in a text the one at the lower byte has less text in front of it. -/
theorem prefix_of_byteCount_le {a b : List Char} (ha : a <+: text) (hb : b <+: text)
    (h : byteCount a ≤ byteCount b) : a <+: b := by
  rcases List.prefix_or_prefix_of_prefix ha hb with hab | ⟨between, rfl⟩
  · exact hab
  · -- the other way round, nothing can stand between the two places
    have hnone : between = [] := by
      by_contra hne
      have hpos : 0 < byteCount between := byteCount_pos hne
      simp only [byteCount_append] at h
      omega
    simp [hnone]

/-- Two beginnings of one text are the same if they take the same number of bytes. -/
theorem eq_of_byteCount_eq {a b : List Char} (ha : a <+: text) (hb : b <+: text)
    (h : byteCount a = byteCount b) : a = b := by
  have hab : a <+: b := prefix_of_byteCount_le ha hb h.le
  have hba : b <+: a := prefix_of_byteCount_le hb ha h.ge
  exact hab.eq_of_length_le hba.length_le

/-! ## Markers in a text -/

/-- The characters of a marker. -/
def Found.source (m : Found) : List Char :=
  (Piece.marker m.code.toList).source

/-- A text holds a marker at its bytes, between what stands in front of it and what stands behind.
Parentheses are closed inside of its code, and go two levels deep at most. -/
def Found.StandsIn (m : Found) (text : List Char) : Prop :=
  ∃ before after, text = before ++ m.source ++ after ∧ Balanced 2 m.code.toList ∧
    m.start = byteCount before ∧ m.stop = m.start + byteCount m.source

/-- A scan of a text from some byte on: markers one behind the other, of which none is left out unless
it begins inside of one that is not. -/
structure IsScan (text : List Char) (start : Nat) (ms : List Found) : Prop where
  stands : ∀ m ∈ ms, m.StandsIn text ∧ start ≤ m.start
  apart : ms.Pairwise fun m n => m.stop ≤ n.start
  complete : ∀ m : Found, m.StandsIn text → start ≤ m.start →
    m ∈ ms ∨ ∃ n ∈ ms, n.start < m.start ∧ m.start < n.stop

theorem Found.StandsIn.start_lt_stop (h : m.StandsIn text) : m.start < m.stop := by
  obtain ⟨before, after, -, -, -, hstop⟩ := h
  have hsource : 0 < byteCount m.source := byteCount_pos (by simp [source, Piece.source])
  omega

/-- A marker begins with a place at which one is read. -/
theorem Found.StandsIn.first? (h : m.StandsIn (before ++ cs)) (hstart : m.start = byteCount before) :
    ∃ after, Marker.first? cs = some (m.code.toList, after) ∧ cs = m.source ++ after := by
  obtain ⟨front, after, htext, hcode, hfront, -⟩ := h
  rw [List.append_assoc] at htext
  have heq : front = before :=
    eq_of_byteCount_eq ⟨_, htext.symm⟩ (List.prefix_append _ _) (hfront.symm.trans hstart)
  subst heq
  have hcs : cs = m.source ++ after := List.append_cancel_left htext
  refine ⟨after, first?_eq_some_iff.2 ⟨?_, hcode⟩, hcs⟩
  simp [hcs, source, Piece.source]

/-- At one place stands one marker. -/
theorem Found.StandsIn.eq_of_start_eq (hm : m.StandsIn text) (hn : n.StandsIn text)
    (h : m.start = n.start) : m = n := by
  obtain ⟨before, after, htext, hcode, hstart, hstop⟩ := hm
  have hn' : n.StandsIn (before ++ (m.source ++ after)) := by rwa [← List.append_assoc, ← htext]
  obtain ⟨behind, hfirst, -⟩ := hn'.first? (h.symm.trans hstart)
  have hread : Marker.first? (m.source ++ after) = some (m.code.toList, after) :=
    first?_eq_some_iff.2 ⟨by simp [source, Piece.source], hcode⟩
  -- reading is a function, so both have one code
  have hcodes : m.code = n.code := by
    have hpair := hread.symm.trans hfirst
    simp only [Option.some.injEq, Prod.mk.injEq] at hpair
    exact String.toList_inj.1 hpair.1
  obtain ⟨-, -, -, -, -, hstop'⟩ := hn
  have hsources : m.source = n.source := by rw [source, source, hcodes]
  have hstops : m.stop = n.stop := by rw [hstop, hstop', h, hsources]
  calc m = ⟨m.start, m.stop, m.code⟩ := rfl
    _ = ⟨n.start, n.stop, n.code⟩ := by rw [h, hstops, hcodes]
    _ = n := rfl

/-! ## Scanning -/

/-- At the end of a text there is nothing left to find. -/
theorem isScan_end (text : List Char) : IsScan text (byteCount text) [] where
  stands := by simp
  apart := .nil
  complete := by
    intro m hm hstart
    -- a marker takes bytes, and there are none left
    exfalso
    have hlt : m.start < m.stop := hm.start_lt_stop
    obtain ⟨before, after, htext, -, hbefore, hstop⟩ := hm
    have hcount : byteCount text = m.stop + byteCount after := by
      rw [htext, byteCount_append, byteCount_append, hstop, hbefore]
    omega

/-- Where no marker is read the scan goes on behind the next character. -/
theorem IsScan.skip {c : Char} (hnone : first? (c :: cs) = none)
    (h : IsScan (before ++ c :: cs) (byteCount (before ++ [c])) ms) :
    IsScan (before ++ c :: cs) (byteCount before) ms where
  stands := by
    intro m hm
    obtain ⟨hstands, hstart⟩ := h.stands m hm
    rw [byteCount_append] at hstart
    exact ⟨hstands, by omega⟩
  apart := h.apart
  complete := by
    intro m hm hstart
    apply h.complete m hm
    by_contra hlt
    -- a place in front of the next character, but not in front of this one, is this one
    obtain ⟨front, after, htext, hcode, hfront, hstop⟩ := id hm
    have hplace : front <+: before ++ c :: cs := ⟨m.source ++ after, by simp [htext]⟩
    have hnext : before ++ [c] <+: before ++ c :: cs := ⟨cs, by simp⟩
    have hprefix : front <+: before ++ [c] := prefix_of_byteCount_le hplace hnext (by omega)
    rcases List.prefix_concat_iff.1 hprefix with heq | hshort
    · rw [heq] at hfront
      omega
    · have heq : m.start = byteCount before := by
        have hle : byteCount front ≤ byteCount before := by
          obtain ⟨between, rfl⟩ := hshort
          simp
        omega
      obtain ⟨behind, hfirst, -⟩ := hm.first? heq
      rw [hnone] at hfirst
      cases hfirst

/-- Where a marker is read the scan goes on behind it. -/
theorem IsScan.take (hm : m.StandsIn text) (h : IsScan text m.stop ms) :
    IsScan text m.start (m :: ms) where
  stands := by
    intro n hn
    rcases List.mem_cons.1 hn with rfl | hn
    · exact ⟨hm, Nat.le_refl _⟩
    · obtain ⟨hstands, hstart⟩ := h.stands n hn
      have hlt : m.start < m.stop := hm.start_lt_stop
      exact ⟨hstands, by omega⟩
  apart := List.pairwise_cons.2 ⟨fun n hn => (h.stands n hn).2, h.apart⟩
  complete := by
    intro n hn hstart
    by_cases hbehind : m.stop ≤ n.start
    · rcases h.complete n hn hbehind with hmem | ⟨k, hk, hcovers⟩
      · exact .inl (List.mem_cons_of_mem _ hmem)
      · exact .inr ⟨k, List.mem_cons_of_mem _ hk, hcovers⟩
    · by_cases heq : m.start = n.start
      · have hsame : m = n := hm.eq_of_start_eq hn heq
        exact .inl (hsame ▸ List.mem_cons_self)
      · exact .inr ⟨m, List.mem_cons_self, by omega, by omega⟩

/-- In two scans from one byte on the first marker of the one does not begin behind that of the
other. -/
theorem IsScan.head_le (h : IsScan text start (m :: ms)) (h' : IsScan text start (n :: ns)) :
    m.start ≤ n.start := by
  have hfirst : ∀ k ∈ m :: ms, m.start ≤ k.start := by
    intro k hk
    rcases List.mem_cons.1 hk with rfl | hk
    · exact Nat.le_refl _
    · have hlt : m.start < m.stop := (h.stands m List.mem_cons_self).1.start_lt_stop
      have happart : m.stop ≤ k.start := (List.pairwise_cons.1 h.apart).1 k hk
      omega
  obtain ⟨hn, hstart⟩ := h'.stands n List.mem_cons_self
  rcases h.complete n hn hstart with hmem | ⟨k, hk, hlt, -⟩
  · exact hfirst n hmem
  · have hle : m.start ≤ k.start := hfirst k hk
    omega

/-- Behind its first marker a scan is a scan from where that marker ends. -/
theorem IsScan.tail (h : IsScan text start (m :: ms)) : IsScan text m.stop ms where
  stands := by
    intro n hn
    exact ⟨(h.stands n (List.mem_cons_of_mem _ hn)).1, (List.pairwise_cons.1 h.apart).1 n hn⟩
  apart := (List.pairwise_cons.1 h.apart).2
  complete := by
    intro n hn hstart
    obtain ⟨hm, hle⟩ := h.stands m List.mem_cons_self
    have hlt : m.start < m.stop := hm.start_lt_stop
    -- the marker at the front ends where the scan of the others begins
    rcases h.complete n hn (by omega) with hmem | ⟨k, hk, hcovers⟩
    · rcases List.mem_cons.1 hmem with rfl | hmem
      · omega
      · exact .inl hmem
    · rcases List.mem_cons.1 hk with rfl | hk
      · omega
      · exact .inr ⟨k, hk, hcovers⟩

/-- A text has no two scans. -/
theorem IsScan.unique (h : IsScan text start ms) (h' : IsScan text start ns) : ms = ns := by
  induction ms generalizing start ns with
  | nil =>
    cases ns with
    | nil => rfl
    | cons n ns =>
      obtain ⟨hn, hstart⟩ := h'.stands n List.mem_cons_self
      rcases h.complete n hn hstart with hmem | ⟨k, hk, -⟩
      · cases hmem
      · cases hk
  | cons m ms ih =>
    cases ns with
    | nil =>
      obtain ⟨hm, hstart⟩ := h.stands m List.mem_cons_self
      rcases h'.complete m hm hstart with hmem | ⟨k, hk, -⟩
      · cases hmem
      · cases hk
    | cons n ns =>
      have hstarts : m.start = n.start := Nat.le_antisymm (h.head_le h') (h'.head_le h)
      have hm : m.StandsIn text := (h.stands m List.mem_cons_self).1
      have hn : n.StandsIn text := (h'.stands n List.mem_cons_self).1
      have hsame : m = n := hm.eq_of_start_eq hn hstarts
      subst hsame
      exact congrArg (m :: ·) (ih h.tail h'.tail)

/-! ## What is found -/

/-- A plain character in front moves the markers by its bytes. -/
theorem locate_consPlain (c : Char) (ps : List Piece) :
    locate start (consPlain c ps) = locate (start + c.utf8Size) ps := by
  unfold consPlain
  split
  · simp [locate, byteCount, Nat.add_assoc]
  · simp [locate, byteCount]

/-- What is found in the rest of a text is a scan from there on. -/
theorem locate_isScan {fuel : Nat} (before : List Char) (h : cs.length ≤ fuel) :
    IsScan (before ++ cs) (byteCount before) (locate (byteCount before) (piecesFrom fuel cs)) := by
  -- each round takes a character or a marker, and both are text in front of what is left
  induction fuel generalizing before cs with
  | zero =>
    obtain rfl : cs = [] := List.eq_nil_of_length_eq_zero (Nat.le_zero.1 h)
    simpa [piecesFrom, locate] using isScan_end before
  | succ fuel ih =>
    cases cs with
    | nil => simpa [piecesFrom, locate] using isScan_end before
    | cons c cs =>
      cases hfirst : first? (c :: cs) with
      | none =>
        have hrest := ih (before ++ [c]) (Nat.le_of_succ_le_succ h)
        rw [List.append_assoc, List.singleton_append] at hrest
        have hscan := hrest.skip hfirst
        simpa [piecesFrom, hfirst, locate_consPlain, byteCount] using hscan
      | some b =>
        obtain ⟨code, after⟩ := b
        have htext : c :: cs = '$' :: '(' :: (code ++ ')' :: after) :=
          (first?_eq_some_iff.1 hfirst).1
        have hcode : Balanced 2 code := (first?_eq_some_iff.1 hfirst).2
        let source := (Piece.marker code).source
        let found : Found :=
          ⟨byteCount before, byteCount before + byteCount source, String.ofList code⟩
        have hsource : c :: cs = source ++ after := by simp [source, Piece.source, htext]
        have hfound : found.StandsIn (before ++ c :: cs) := by
          refine ⟨before, after, ?_, ?_, rfl, ?_⟩
          · simp [found, Found.source, source, hsource]
          · simpa [found] using hcode
          · simp [found, Found.source, source]
        have hlength : after.length ≤ fuel := by
          have hcount : (c :: cs).length = source.length + after.length := by simp [hsource]
          have hlong : 0 < source.length := by simp [source, Piece.source]
          omega
        have hrest := ih (before ++ source) hlength
        rw [List.append_assoc, ← hsource, byteCount_append] at hrest
        have hscan := hrest.take hfound
        simpa [piecesFrom, hfirst, locate, found, source] using hscan

/-- What is found in a text is its scan: the leftmost markers that do not overlap. -/
theorem find_eq_iff (text : String) (ms : List Found) :
    find text = ms ↔ IsScan text.toList 0 ms := by
  have hscan : IsScan text.toList 0 (find text) :=
    locate_isScan [] (Nat.le_refl text.toList.length)
  constructor
  · rintro rfl
    exact hscan
  · exact hscan.unique

/-- A `$(` that goes too deep is no marker, but there may be one behind its dollar sign. -/
example : find "é$(a(b(c$(d))))$(e)" = [⟨9, 13, "d"⟩, ⟨16, 20, "e"⟩] := by
  decide

end Marker

end StepScript

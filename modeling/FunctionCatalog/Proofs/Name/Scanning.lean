import FunctionCatalog.Proofs.Name

/-
  FunctionCatalog: scanning for names and checking them.
  A scan and a check go over the characters of a text each in its own way, and agree. From any index
  a scan stops where the longest name there ends, and nowhere else can it stop (`isScan_iff`). A text
  is a name exactly if the scan passes all of it (`isName_iff_scanName`), and the first fault of any
  other text is the character where the scan stops (`exists_firstFault`).
-/

namespace FunctionCatalog

variable {cs : List Char} {start stop : Nat}

/-! ## Where a scan stops -/

/-- Between two indices stands a whole name, which can be made if its length is allowed and goes on
no further; or nothing stands there, and no name starts. -/
structure IsScan (cs : List Char) (start stop : Nat) : Prop where
  start_le : start ≤ stop
  stop_le : stop ≤ cs.length
  name : cs.extract start stop = [] ∨ ∀ (settings : Settings) (mode : CaseMode),
    ((cs.extract start stop).length : Int) ≤ settings.nameLimit →
      ∃ n, Name.make settings (String.ofList (cs.extract start stop)) mode = .ok n
  maximal : ∀ c ∈ cs[stop]?,
    isNamePart c = false ∨ cs.extract start stop = [] ∧ isNameStart c = false

/-- What a scan passes is the name that is taken. -/
theorem extract_scanName (cs : List Char) (start : Nat) :
    cs.extract start (scanName cs start) = (takeName (cs.drop start)).1 := by
  rw [List.extract_eq_take_drop, scanName, Nat.add_sub_cancel_left]
  have htake : ((takeName (cs.drop start)).1 ++ (takeName (cs.drop start)).2).take
      (takeName (cs.drop start)).1.length = (takeName (cs.drop start)).1 := List.take_left
  rwa [takeName_append] at htake

/-- Where it stops stands what follows that name. -/
theorem getElem?_scanName (cs : List Char) (start : Nat) :
    cs[scanName cs start]? = (takeName (cs.drop start)).2.head? := by
  have hright : ((takeName (cs.drop start)).1 ++ (takeName (cs.drop start)).2)[
      (takeName (cs.drop start)).1.length]? = (takeName (cs.drop start)).2.head? := by
    rw [List.getElem?_append_right (Nat.le_refl _), Nat.sub_self, List.head?_eq_getElem?]
  rwa [takeName_append, List.getElem?_drop] at hright

theorem scanName_le (h : start ≤ cs.length) : scanName cs start ≤ cs.length := by
  have hlength := length_takeName (cs.drop start)
  rw [List.length_drop] at hlength
  unfold scanName
  omega

theorem exists_make_of_isName (h : isName cs = true) {settings : Settings}
    (hfits : (cs.length : Int) ≤ settings.nameLimit) (mode : CaseMode) :
    ∃ n, Name.make settings (String.ofList cs) mode = .ok n := by
  have hname : isName (String.ofList cs).toList = true := by rwa [String.toList_ofList]
  let n : Name := { value := String.ofList cs, mode, isName_value := hname }
  have hn : n.Fits settings := by rwa [Name.Fits, String.toList_ofList]
  exact ⟨_, Name.make_of_fits hn⟩

theorem isScan_scanName (h : start ≤ cs.length) : IsScan cs start (scanName cs start) where
  start_le := Nat.le_add_right _ _
  stop_le := scanName_le h
  name := by
    rw [extract_scanName]
    by_cases hnone : (takeName (cs.drop start)).1 = []
    · exact .inl hnone
    · exact .inr fun settings mode hfits =>
        exists_make_of_isName (isName_takeName hnone) hfits mode
  maximal := by
    intro c hc
    rw [getElem?_scanName] at hc
    rw [extract_scanName]
    by_cases hnone : (takeName (cs.drop start)).1 = []
    · have hrest := takeName_append (cs.drop start)
      rw [hnone, List.nil_append] at hrest
      rw [hrest] at hc
      exact .inr ⟨hnone, takeName_eq_nil_iff.1 hnone c hc⟩
    · exact .inl (not_isNamePart_of_takeName hnone c hc)

/-- There is no other index for a scan to stop at. -/
theorem IsScan.eq_scanName (h : IsScan cs start stop) : stop = scanName cs start := by
  obtain ⟨hstart, hstop, hname, hmaximal⟩ := h
  have hlength : (cs.extract start stop).length = stop - start := by
    rw [List.extract_eq_take_drop, List.length_take, List.length_drop]
    omega
  -- the text from the start on is the slice and what follows it
  have hsplit : cs.extract start stop ++ cs.drop stop = cs.drop start := by
    have hstop : cs.drop stop = (cs.drop start).drop (stop - start) := by
      rw [List.drop_drop, Nat.add_sub_cancel' hstart]
    rw [hstop, List.extract_eq_take_drop, List.take_append_drop]
  rw [← List.head?_drop] at hmaximal
  have htake : (takeName (cs.drop start)).1 = cs.extract start stop := by
    rw [← hsplit]
    rcases hname with hnone | hname
    · rw [hnone, List.nil_append]
      refine takeName_eq_nil_iff.2 fun c hc => ?_
      rcases hmaximal c hc with hpart | ⟨-, hstart⟩
      · rw [← Bool.not_eq_true] at hpart ⊢
        exact fun hstart => hpart (isNamePart_of_isNameStart hstart)
      · exact hstart
    · obtain ⟨n, hn⟩ := hname { nameLimit := (cs.extract start stop).length } .sensitive
        (Int.le_refl _)
      have hname := Name.isName_of_make hn
      rw [takeName_of_isName hname fun c hc => ?_]
      exact (hmaximal c hc).resolve_right fun hnone => ne_nil_of_isName hname hnone.1
  rw [scanName, htake, hlength]
  omega

theorem isScan_iff (h : start ≤ cs.length) : IsScan cs start stop ↔ stop = scanName cs start :=
  ⟨IsScan.eq_scanName, fun hstop => hstop ▸ isScan_scanName h⟩

/-! ## What a check refuses -/

/-- A text is a name exactly if the scan passes all of it. -/
theorem isName_iff_scanName : isName cs = true ↔ cs ≠ [] ∧ scanName cs 0 = cs.length := by
  rw [scanName, List.drop_zero, Nat.zero_add]
  constructor
  · intro h
    have htake : takeName (cs ++ []) = (cs, []) := takeName_of_isName h (by simp)
    rw [List.append_nil] at htake
    exact ⟨ne_nil_of_isName h, by rw [htake]⟩
  · rintro ⟨hne, hlength⟩
    have hrest : (takeName cs).2 = [] := by
      have hsum := length_takeName cs
      exact List.eq_nil_of_length_eq_zero (by omega)
    have hall := takeName_append cs
    rw [hrest, List.append_nil] at hall
    have hname : isName (takeName cs).1 = true := isName_takeName (by rwa [hall])
    rwa [hall] at hname

/-- What is wrong with a text that is no name stands where the scan stops. -/
theorem exists_firstFault (hne : cs ≠ []) (h : isName cs = false) :
    ∃ c, cs[scanName cs 0]? = some c ∧ Name.firstFault cs = some (scanName cs 0, c) := by
  cases cs with
  | nil => exact absurd rfl hne
  | cons c cs =>
    cases hc : isNameStart c with
    | false =>
      have hscan : scanName (c :: cs) 0 = 0 := by
        rw [scanName, List.drop_zero, takeName, hc]
        rfl
      rw [hscan, Name.firstFault, hc]
      exact ⟨c, rfl, rfl⟩
    | true =>
      -- the scan goes on up to the first character that may not stand in a name
      have hscan : scanName (c :: cs) 0 = cs.findIdx (fun d => !isNamePart d) + 1 := by
        rw [scanName, List.drop_zero, takeName, if_pos hc, List.length_cons,
          List.takeWhile_eq_take_findIdx_not, List.length_take,
          Nat.min_eq_left List.findIdx_le_length, Nat.zero_add]
      have hlt : cs.findIdx (fun d => !isNamePart d) < cs.length := by
        rw [isName, hc, Bool.true_and, List.all_eq_false] at h
        obtain ⟨d, hd, hpart⟩ := h
        exact List.findIdx_lt_length.2 ⟨d, hd, by simpa using hpart⟩
      rw [hscan, Name.firstFault, if_pos hc, List.find?_eq_getElem?_findIdx,
        List.getElem?_eq_getElem hlt, List.getElem?_cons_succ, List.getElem?_eq_getElem hlt]
      exact ⟨_, rfl, rfl⟩

namespace Name

variable {settings : Settings} {text : String}

/-- A text that is neither empty nor too long is refused for the character where the scan stops. -/
theorem exists_make_error (hne : text.toList ≠ [])
    (hfits : (text.toList.length : Int) ≤ settings.nameLimit) (h : isName text.toList = false)
    (mode : CaseMode) : ∃ c, text.toList[scanName text.toList 0]? = some c ∧
      make settings text mode = .error ⟨text, scanName text.toList 0, .character c⟩ := by
  obtain ⟨c, hc, hfault⟩ := exists_firstFault hne h
  refine ⟨c, hc, ?_⟩
  unfold make
  simp only [if_neg hne, if_neg (Int.not_lt.2 hfits), h, hfault]
  rfl

/-- Checking a text and scanning it agree. A text is a name exactly if it is not empty, is no longer
than is allowed, and the scan passes all of it. One that is refused for neither of the first two is
refused for the character where the scan stops. From any index of a text the scan goes on as far as
a name does, and no other end of a scan is possible. -/
theorem make_agrees_with_scan (settings : Settings) (mode : CaseMode) (text : String) :
    ((∃ n, make settings text mode = .ok n) ↔
      text.toList ≠ [] ∧ (text.toList.length : Int) ≤ settings.nameLimit ∧
        scanName text.toList 0 = text.toList.length) ∧
    (∀ e, make settings text mode = .error e →
      text.toList ≠ [] → (text.toList.length : Int) ≤ settings.nameLimit →
        e.text = text ∧ e.position = scanName text.toList 0 ∧
          ∃ c, text.toList[scanName text.toList 0]? = some c ∧ e.fault = .character c) ∧
    ∀ start ≤ text.toList.length, ∀ stop,
      IsScan text.toList start stop ↔ stop = scanName text.toList start := by
  refine ⟨⟨?_, ?_⟩, ?_, fun start hstart stop => isScan_iff hstart⟩
  · rintro ⟨n, hn⟩
    obtain ⟨rfl, -, hfits⟩ := make_eq_ok hn
    obtain ⟨hne, hscan⟩ := isName_iff_scanName.1 n.isName_value
    exact ⟨hne, hfits, hscan⟩
  · rintro ⟨hne, hfits, hscan⟩
    have hname := isName_iff_scanName.2 ⟨hne, hscan⟩
    have hmake := exists_make_of_isName hname hfits mode
    rwa [String.ofList_toList] at hmake
  · intro e he hne hfits
    cases hname : isName text.toList with
    | false =>
      obtain ⟨c, hc, hmake⟩ := exists_make_error hne hfits hname mode
      obtain rfl := Except.error.inj (he.symm.trans hmake)
      exact ⟨rfl, rfl, c, hc, rfl⟩
    | true =>
      obtain ⟨n, hn⟩ := exists_make_of_isName hname hfits mode
      rw [String.ofList_toList, he] at hn
      cases hn

/-- The text `ab cd` is refused for its blank, and from there on the scan finds `cd`. -/
theorem make_agrees_with_scan_blank :
    ("ab cd".toList ≠ [] ∧ ("ab cd".toList.length : Int) ≤ ({} : Settings).nameLimit ∧
      ∃ e, make {} "ab cd" .insensitive = .error e ∧ e.position = 2 ∧ e.fault = .character ' ') ∧
    3 ≤ "ab cd".toList.length ∧ IsScan "ab cd".toList 3 5 := by
  obtain ⟨-, hrefused, hscan⟩ := make_agrees_with_scan {} .insensitive "ab cd"
  have hne : "ab cd".toList ≠ [] := by decide
  have hfits : ("ab cd".toList.length : Int) ≤ ({} : Settings).nameLimit := by decide
  have hstart : 3 ≤ "ab cd".toList.length := by decide
  have herror : make {} "ab cd" .insensitive = .error ⟨"ab cd", 2, .character ' '⟩ := rfl
  obtain ⟨-, hposition, c, hc, hfault⟩ := hrefused _ herror hne hfits
  exact ⟨⟨hne, hfits, _, herror, rfl, rfl⟩, hstart, (hscan 3 hstart 5).2 (by decide)⟩

end Name

end FunctionCatalog

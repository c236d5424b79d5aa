/-!
# Slices of a text

Offsets into a text count the bytes of its UTF-8 form.  A slice holds the
characters between two offsets; the main statement gives it back from the texts
before and behind it.
-/

namespace OperatorMarkup

/-- The characters of a text between two byte offsets. -/
def sliceBytes (text : String) (start stop : Nat) : String :=
  String.Pos.Raw.extract text ⟨start⟩ ⟨stop⟩

/-- The number of bytes that characters take. -/
def byteCount : List Char → Nat
  | [] => 0
  | c :: rest => c.utf8Size + byteCount rest

@[simp]
theorem byteCount_nil : byteCount [] = 0 :=
  rfl

@[simp]
theorem byteCount_cons (c : Char) (rest : List Char) :
    byteCount (c :: rest) = c.utf8Size + byteCount rest :=
  rfl

theorem byteCount_append (first second : List Char) :
    byteCount (first ++ second) = byteCount first + byteCount second := by
  induction first with
  | nil => simp
  | cons c rest ih => simp [ih, Nat.add_assoc]

theorem utf8ByteSize_ofList (text : List Char) :
    (String.ofList text).utf8ByteSize = byteCount text := by
  induction text with
  | nil => rfl
  | cons c rest ih => simp [String.ofList_cons, ih]

theorem utf8ByteSize_eq_byteCount (text : String) :
    text.utf8ByteSize = byteCount text.toList := by
  rw [← utf8ByteSize_ofList, String.ofList_toList]

theorem byteCount_eq_zero_iff (text : List Char) : byteCount text = 0 ↔ text = [] := by
  cases text with
  | nil => simp
  | cons c rest =>
      have positive := c.utf8Size_pos
      simp only [byteCount_cons, reduceCtorEq, iff_false]
      omega

/-! ## A slice from its surroundings -/

open String.Pos.Raw (extract)

private theorem sliceBytes_eq (text : String) (start stop : Nat) :
    sliceBytes text start stop =
      if start ≥ stop then ""
      else String.ofList (extract.go₁ text.toList ⟨0⟩ ⟨start⟩ ⟨stop⟩) :=
  rfl

private theorem extract_go₂_cons (c : Char) (rest : List Char) (offset stop : Nat) :
    extract.go₂ (c :: rest) ⟨offset⟩ ⟨stop⟩ =
      if (⟨offset⟩ : String.Pos.Raw) = ⟨stop⟩ then []
      else c :: extract.go₂ rest ⟨offset + c.utf8Size⟩ ⟨stop⟩ :=
  rfl

private theorem extract_go₁_cons (c : Char) (rest : List Char) (offset start stop : Nat) :
    extract.go₁ (c :: rest) ⟨offset⟩ ⟨start⟩ ⟨stop⟩ =
      if (⟨offset⟩ : String.Pos.Raw) = ⟨start⟩ then extract.go₂ (c :: rest) ⟨offset⟩ ⟨stop⟩
      else extract.go₁ rest ⟨offset + c.utf8Size⟩ ⟨start⟩ ⟨stop⟩ :=
  rfl

private theorem extract_go₂_append (kept behind : List Char) (offset : Nat) :
    extract.go₂ (kept ++ behind) ⟨offset⟩ ⟨offset + byteCount kept⟩ = kept := by
  induction kept generalizing offset with
  | nil =>
      cases behind with
      | nil => rfl
      | cons c rest => simp [extract_go₂_cons]
  | cons c rest ih =>
      have positive := c.utf8Size_pos
      have step := ih (offset + c.utf8Size)
      rw [List.cons_append, extract_go₂_cons, if_neg]
      · congr 1
        rw [byteCount_cons, ← Nat.add_assoc]
        exact step
      · simp only [byteCount_cons, String.Pos.Raw.mk.injEq]
        omega

private theorem extract_go₁_append (before kept behind : List Char) (offset : Nat)
    (nonempty : kept ≠ []) :
    extract.go₁ (before ++ kept ++ behind) ⟨offset⟩ ⟨offset + byteCount before⟩
      ⟨offset + byteCount before + byteCount kept⟩ = kept := by
  induction before generalizing offset with
  | nil =>
      cases kept with
      | nil => exact absurd rfl nonempty
      | cons c rest =>
          rw [List.nil_append, List.cons_append, extract_go₁_cons, if_pos (by simp)]
          simpa using extract_go₂_append (c :: rest) behind offset
  | cons c rest ih =>
      have positive := c.utf8Size_pos
      have step := ih (offset + c.utf8Size)
      rw [List.cons_append, List.cons_append, extract_go₁_cons, if_neg]
      · rw [byteCount_cons, ← Nat.add_assoc]
        exact step
      · simp only [byteCount_cons, String.Pos.Raw.mk.injEq]
        omega

/-- The slice between the texts before and behind it is what stands there. -/
theorem sliceBytes_append (before kept behind : String) :
    sliceBytes (before ++ kept ++ behind) before.utf8ByteSize
      (before.utf8ByteSize + kept.utf8ByteSize) = kept := by
  rw [sliceBytes_eq, ← String.toList_inj]
  split
  · next covered =>
      have none : byteCount kept.toList = 0 := by
        rw [← utf8ByteSize_eq_byteCount]
        omega
      rw [(byteCount_eq_zero_iff _).mp none]
      rfl
  · next covered =>
      have nonempty : kept.toList ≠ [] := by
        intro empty
        simp [utf8ByteSize_eq_byteCount kept, empty] at covered
      rw [String.toList_ofList]
      simpa [utf8ByteSize_eq_byteCount] using
        extract_go₁_append before.toList kept.toList behind.toList 0 nonempty

end OperatorMarkup

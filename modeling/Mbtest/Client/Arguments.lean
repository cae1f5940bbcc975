import Mbtest.Client.Commands
import Mathlib.Data.List.TakeWhile

/-! How the client cuts a command line into its arguments. -/
namespace Mbtest.Client.Console

abbrev nul : Char := Char.ofNat 0

/-- `std::string s1(p1, p2)` -/
def piece (mem : Str) (p1 p2 : ℕ) : Str := (mem.drop p1).take (p2 - p1)

/-- The loop of `SplitString` on the characters in memory from `s` on; `none` when `*p2` lies
outside of them, or when the fuel ends before the loop. -/
def splitLoop (mem : Str) (c : Char) : ℕ → ℕ → ℕ → List Str → Option (List Str)
  | 0, _, _, _ => none
  | fuel + 1, p1, p2, v =>
    match mem[p2]? with
    | none => none
    | some x =>
      if x = c then splitLoop mem c fuel (p2 + 1) (p2 + 1) (v ++ [piece mem p1 p2])
      else if x = nul then some (v ++ [piece mem p1 p2])
      else splitLoop mem c fuel p1 (p2 + 1) v

/-- `SplitString`, with fuel for one pass over the string and its end. -/
def splitString (s : Str) (c : Char) : Option (List Str) :=
  splitLoop (s ++ [nul]) c (s.length + 1) 0 0 []

section Split
variable {c : Char}

theorem piece_append (done p rest : Str) :
    piece (done ++ p ++ rest) done.length (done.length + p.length) = p := by
  rw [piece, List.append_assoc, List.drop_left, Nat.add_sub_cancel_left, List.take_left]

theorem getElem?_append_cons (done p rest : Str) (x : Char) :
    (done ++ p ++ x :: rest)[done.length + p.length]? = some x := by
  rw [← List.length_append, List.getElem?_append_right le_rfl, Nat.sub_self]
  rfl

/-- `p1` stands behind the pieces that are done and `p2` behind the pending piece `p`; what
is left of the string is cut at every separator, and `p` goes in front of its first piece. -/
theorem splitLoop_eq (hc : c ≠ nul) (beyond done p rest : Str) (hp : c ∉ p) (hrest : nul ∉ rest)
    (v : List Str) {fuel : ℕ} (hfuel : rest.length < fuel) :
    splitLoop (done ++ p ++ (rest ++ nul :: beyond)) c fuel done.length (done.length + p.length) v =
      some (v ++ (p ++ rest).splitOn c) := by
  induction rest generalizing done p v fuel with
  | nil =>
    obtain ⟨fuel, rfl⟩ := Nat.exists_eq_succ_of_ne_zero (Nat.ne_of_gt hfuel)
    have hread := getElem?_append_cons done p beyond nul
    simp only [List.nil_append, splitLoop, hread, if_neg (Ne.symm hc), if_true, piece_append,
      List.append_nil, List.splitOn_eq_singleton hp]
  | cons x rest ih =>
    obtain ⟨fuel, rfl⟩ := Nat.exists_eq_succ_of_ne_zero (Nat.ne_of_gt (Nat.zero_lt_of_lt hfuel))
    rw [List.mem_cons, not_or] at hrest
    have hlt : rest.length < fuel := by
      rw [List.length_cons] at hfuel
      omega
    have hread := getElem?_append_cons done p (rest ++ nul :: beyond) x
    rw [List.cons_append]
    simp only [splitLoop, hread]
    by_cases hx : x = c
    · -- the piece is finished, and the next one is empty so far
      subst hx
      have hmem : done ++ p ++ x :: (rest ++ nul :: beyond) =
          (done ++ p ++ [x]) ++ [] ++ (rest ++ nul :: beyond) := by simp
      have hpos : done.length + p.length + 1 = (done ++ p ++ [x]).length := by
        simp only [List.length_append, List.length_singleton]
      have hnext := ih (done ++ p ++ [x]) [] List.not_mem_nil hrest.2 (v ++ [p]) hlt
      rw [if_pos rfl, piece_append, hmem, hpos]
      rw [List.length_nil, Nat.add_zero] at hnext
      rw [hnext, List.nil_append, List.splitOn_append_cons_self_of_not_mem hp, List.append_assoc]
      rfl
    · have hmem : done ++ p ++ x :: (rest ++ nul :: beyond) =
          done ++ (p ++ [x]) ++ (rest ++ nul :: beyond) := by simp
      have hpos : done.length + p.length + 1 = done.length + (p ++ [x]).length := by
        rw [List.length_append, List.length_singleton, Nat.add_assoc]
      have hpending : c ∉ p ++ [x] := by
        rw [List.mem_append, List.mem_singleton, not_or]
        exact ⟨hp, Ne.symm hx⟩
      rw [if_neg hx, if_neg (Ne.symm hrest.1), hmem, hpos, ih done (p ++ [x]) hpending hrest.2 v hlt]
      simp

theorem memory_eq (s : Str) :
    nul ∉ s.takeWhile (· ≠ nul) ∧
      ∃ beyond, s ++ [nul] = s.takeWhile (· ≠ nul) ++ nul :: beyond := by
  induction s with
  | nil => exact ⟨List.not_mem_nil, [], rfl⟩
  | cons x s ih =>
    obtain ⟨hnul, beyond, hbeyond⟩ := ih
    by_cases hx : x = nul
    · have hnil : (x :: s).takeWhile (· ≠ nul) = [] := List.takeWhile_cons_of_neg (by simp [hx])
      rw [hnil, hx]
      exact ⟨List.not_mem_nil, s ++ [nul], rfl⟩
    · have hcons : (x :: s).takeWhile (· ≠ nul) = x :: s.takeWhile (· ≠ nul) :=
        List.takeWhile_cons_of_pos (by simp [hx])
      rw [hcons, List.mem_cons, not_or]
      exact ⟨⟨Ne.symm hx, hnul⟩, beyond, congrArg (x :: ·) hbeyond⟩

theorem splitString_eq (hc : c ≠ nul) (s : Str) :
    splitString s c = some ((s.takeWhile (· ≠ nul)).splitOn c) := by
  obtain ⟨hnul, beyond, hmem⟩ := memory_eq s
  have hlen : (s.takeWhile (· ≠ nul)).length < s.length + 1 :=
    Nat.lt_succ_of_le (List.takeWhile_sublist _).length_le
  rw [splitString, hmem]
  exact splitLoop_eq hc beyond [] [] _ List.not_mem_nil hnul [] hlen

theorem not_mem_of_mem_splitOn {s p : Str} (hp : p ∈ s.splitOn c) : c ∉ p := by
  induction s generalizing p with
  | nil =>
    rw [List.splitOn_nil, List.mem_singleton] at hp
    rw [hp]
    exact List.not_mem_nil
  | cons x s ih =>
    rw [List.splitOn_cons_eq_if_modifyHead] at hp
    split_ifs at hp with hx
    · rcases List.mem_cons.mp hp with rfl | hp
      · exact List.not_mem_nil
      · exact ih hp
    · have hne : c ≠ x := by
        rintro rfl
        exact hx (beq_self_eq_true c)
      obtain ⟨q, qs, hq⟩ := List.exists_cons_of_ne_nil (List.splitOn_ne_nil c s)
      rw [hq, List.modifyHead_cons] at hp
      rw [hq] at ih
      rcases List.mem_cons.mp hp with rfl | hp
      · rw [List.mem_cons, not_or]
        exact ⟨hne, ih List.mem_cons_self⟩
      · exact ih (List.mem_cons_of_mem q hp)

theorem length_splitOn (s : Str) : (s.splitOn c).length = s.count c + 1 := by
  induction s with
  | nil => rfl
  | cons x s ih =>
    rw [List.splitOn_cons_eq_if_modifyHead, List.count_cons]
    split_ifs
    · rw [List.length_cons, ih]
    · rw [List.length_modifyHead, ih, Nat.add_zero]

end Split

/-- A string is cut into the only pieces without the separator that are joined to it by the
separator. -/
theorem splitString_unique {s : Str} (hs : nul ∉ s) {c : Char} (hc : c ≠ nul) :
    ∃ v, splitString s c = some v ∧ v.length = s.count c + 1 ∧
      (v ≠ [] ∧ (∀ p ∈ v, c ∉ p) ∧ [c].intercalate v = s) ∧
      ∀ v' : List Str, v' ≠ [] ∧ (∀ p ∈ v', c ∉ p) ∧ [c].intercalate v' = s → v' = v := by
  have hsplit := splitString_eq hc s
  have hwhole : s.takeWhile (· ≠ nul) = s :=
    List.takeWhile_eq_self_iff.mpr fun x hx => decide_eq_true fun h => hs (h ▸ hx)
  rw [hwhole] at hsplit
  refine ⟨s.splitOn c, hsplit, length_splitOn s, ⟨List.splitOn_ne_nil c s,
    fun p hp => not_mem_of_mem_splitOn hp, List.intercalate_splitOn c⟩, ?_⟩
  rintro v' ⟨hne, hpieces, rfl⟩
  exact (List.splitOn_intercalate c hpieces hne).symm

theorem splitString_unique_read :
    ∃ v, splitString " read  all".toList ' ' = some v ∧ v.length = 4 ∧
      ∀ v' : List Str, v' ≠ [] ∧ (∀ p ∈ v', ' ' ∉ p) ∧
        [' '].intercalate v' = " read  all".toList → v' = v := by
  have hs : nul ∉ " read  all".toList := by decide
  have hc : ' ' ≠ nul := by decide
  obtain ⟨v, hv, hlen, -, hunique⟩ := splitString_unique hs hc
  have hcount : " read  all".toList.count ' ' = 3 := by decide
  rw [hcount] at hlen
  exact ⟨v, hv, hlen, hunique⟩

end Mbtest.Client.Console

/-
**JSON arrays, item by item.**

An array of a known length is read by as many readers as it should have items.  They stop where the
items end, and they stop when they have read their number, whatever follows; the closing bracket is
asked for behind them.  So an array that is too short is seen by the number of the items that were
read, one that is too long by what stands where its end should be, and of the items no more are
looked at than there are readers.

Main definitions:

* `ByteMachine.Json.Item`, `Json.arrayText` — **the text of an array** of any items;
* `ByteMachine.Json.Item.verdict` — what a reader of items makes of an item;
* `ByteMachine.Json.ReadsItems` — what readers make of items.

Main results:

* `ByteMachine.Json.IsValue.exists_items` — every array is made of items;
* `ByteMachine.Json.readsItems_itemsText` — **what readers make of an array**.
-/

import ByteMachine.Proofs.Json.Values

set_option relaxedAutoImplicit false
set_option autoImplicit false

namespace ByteMachine

namespace Json

/-! ### Items -/

/-- **An item of an array:** a value with blanks around it. -/
structure Item where
  before : Blanks
  value : List Char
  isValue : IsValue value
  after : Blanks

/-- The text of an item. -/
def Item.text (i : Item) : List Char := i.before.val ++ (i.value ++ i.after.val)

/-- Items behind another one, each with a comma in front of it. -/
def moreItemsText : List Item → List Char
  | [] => []
  | i :: is => ',' :: (i.text ++ moreItemsText is)

/-- Items with commas between them. -/
def itemsText : List Item → List Char
  | [] => []
  | i :: is => i.text ++ moreItemsText is

/-- **The text of an array** with these items, and with blanks behind its opening bracket. -/
def arrayText (inside : Blanks) (is : List Item) : List Char :=
  '[' :: (inside.val ++ (itemsText is ++ [']']))

variable {cs rest : List Char} {is : List Item} {i : Item}

theorem Item.text_append (i : Item) (rest : List Char) :
    i.text ++ rest = i.before.val ++ (i.value ++ (i.after.val ++ rest)) := by
  simp only [Item.text, List.append_assoc]

/-- Blanks behind blanks. -/
def Blanks.append (b b' : Blanks) : Blanks :=
  ⟨b.val ++ b'.val, fun _ h => (List.mem_append.1 h).elim (b.property _) (b'.property _)⟩

theorem areItems_itemsText (inside : Blanks) (i : Item) (is : List Item) :
    AreItems (inside.val ++ itemsText (i :: is)) := by
  induction is generalizing inside i with
  | nil =>
      have h := AreItems.last (inside.append i.before) i.after i.isValue
      simpa [itemsText, moreItemsText, Item.text, Blanks.append] using h
  | cons i' is ih =>
      have h := AreItems.more (inside.append i.before) i.after i.isValue (ih .none i')
      simpa [itemsText, moreItemsText, Item.text, Blanks.append, Blanks.none] using h

theorem isValue_arrayText (inside : Blanks) (is : List Item) : IsValue (arrayText inside is) := by
  cases is with
  | nil => exact .emptyArray inside
  | cons i is =>
      have h := IsValue.array (areItems_itemsText inside i is)
      rwa [List.append_assoc] at h

theorem AreItems.exists_items {cs : List Char} (h : AreItems cs) :
    ∃ i is, cs = itemsText (i :: is) := by
  cases h with
  | @last b b' v h => exact ⟨⟨b, v, h, b'⟩, [], by simp [itemsText, moreItemsText, Item.text]⟩
  | @more b b' v cs h hs =>
      obtain ⟨i, is, rfl⟩ := hs.exists_items
      exact ⟨⟨b, v, h, b'⟩, i :: is, by simp [itemsText, moreItemsText, Item.text]⟩
  termination_by cs.length
  decreasing_by
    subst_vars
    simp only [List.length_append, List.length_cons]
    omega

/-- **Every array is made of items.** -/
theorem IsValue.exists_items (h : IsValue ('[' :: cs)) :
    ∃ inside is, '[' :: cs = arrayText inside is := by
  generalize hv : '[' :: cs = v at h
  cases h with
  | number h =>
      obtain ⟨c, cs', rfl, hc⟩ := h.exists_cons
      cases hv
      cases hc
  | emptyArray b => exact ⟨b, [], rfl⟩
  | array h =>
      obtain ⟨i, is, rfl⟩ := h.exists_items
      exact ⟨.none, i :: is, rfl⟩
  | _ => cases hv

/-! ### Reading items -/

section Items

variable {σ : Type} {read : σ → Reader σ} {s : σ} {r : Except Error σ} {n k : Nat}

/-- **What a reader of items makes of an item,** after the values read so far. -/
def Item.verdict (read : σ → Reader σ) (s : σ) (i : Item) : Except Error σ :=
  (read s (i.value ++ [']'])).map Prod.fst

theorem Item.verdict_eq (h : Reads (read s) i.value r) : i.verdict read s = r := by
  rw [verdict, h [']'] (ends_cons rfl [])]
  cases r <;> rfl

/-- What stands behind an item does not go on with a number. -/
theorem ends_moreItemsText (is : List Item) (rest : List Char) :
    Ends (moreItemsText is ++ ']' :: rest) := by
  cases is with
  | nil => exact ends_cons rfl rest
  | cons i is => exact ends_cons rfl _

/-- At the closing bracket there are no more items. -/
theorem moreItems_end (b : Blanks) (first : Bool) (rest : List Char) :
    moreItems first (b.val ++ ']' :: rest) = .ok (false, ']' :: rest) := by
  rw [moreItems, bind_of_ok (look_blanks b rfl rest), if_pos rfl]
  rfl

/-- The first item. -/
theorem moreItems_first (b : Blanks) (i : Item) (rest : List Char) :
    moreItems true (b.val ++ (i.text ++ rest)) =
      .ok (true, i.value ++ (i.after.val ++ rest)) := by
  obtain ⟨c, cs, hvalue, hspace, hc⟩ := i.isValue.exists_cons_ne_bracket
  have hlook : look (b.val ++ (i.text ++ rest)) = .ok (c, i.value ++ (i.after.val ++ rest)) := by
    rw [i.text_append, skipsBlanks_look b, hvalue]
    exact look_blanks i.before hspace _
  rw [moreItems, bind_of_ok hlook, if_neg hc, if_pos rfl]
  rfl

/-- The comma in front of another item. -/
theorem moreItems_comma (b : Blanks) (i : Item) (rest : List Char) :
    moreItems false (b.val ++ ',' :: (i.text ++ rest)) =
      .ok (true, i.value ++ (i.after.val ++ rest)) := by
  obtain ⟨c, cs, hvalue, hspace, hc⟩ := i.isValue.exists_cons_ne_bracket
  have hlook : look (i.text ++ rest) = .ok (c, i.value ++ (i.after.val ++ rest)) := by
    rw [i.text_append, hvalue]
    exact look_blanks i.before hspace _
  rw [moreItems, bind_of_ok (look_blanks b rfl _), if_neg (by decide), if_neg Bool.false_ne_true,
    bind_of_ok (symbol_cons rfl _), bind_of_ok hlook, if_neg hc]
  rfl

/-- **An item is read as the reader of items has it,** and then those behind it. -/
theorem itemsFrom_of_moreItems {readers : List (σ → Reader σ)}
    (hmore : moreItems (decide (n = 0)) cs = .ok (true, i.value ++ (i.after.val ++ rest)))
    (hrest : Ends rest) (h : Reads (read s) i.value r) :
    itemsFrom n (read :: readers) s cs =
      r.bind fun s => itemsFrom (n + 1) readers s (i.after.val ++ rest) := by
  have hread := h (i.after.val ++ rest) (ends_blanks i.after hrest)
  rw [itemsFrom, bind_of_ok hmore, if_pos rfl]
  cases r with
  | ok s' => exact bind_of_ok hread
  | error e => exact bind_of_error hread

/-- **What `k` readers make of items,** `n` having been read before: they read as many as there are
of both, and what they leave begins with the closing bracket exactly if they have read all. -/
def ReadsItems (read : σ → Reader σ) (n k : Nat) (is : List Item) (s : σ)
    (cs rest : List Char) : Prop :=
  ∃ left, symbol ']' left = (if is.length ≤ k then .ok ((), rest) else .error .malformed) ∧
    itemsFrom n (List.replicate k read) s cs =
      ((is.take k).foldlM (Item.verdict read) s).map fun s => ((n + min k is.length, s), left)

/-- One more reader reads one more item. -/
theorem readsItems_cons
    (hmore : moreItems (decide (n = 0)) cs =
      .ok (true, i.value ++ (i.after.val ++ (moreItemsText is ++ ']' :: rest))))
    (hr : Reads (read s) i.value r)
    (hbehind : ∀ s, ReadsItems read (n + 1) k is s
      (i.after.val ++ (moreItemsText is ++ ']' :: rest)) rest) :
    ReadsItems read n (k + 1) (i :: is) s cs rest := by
  have hcount : n + 1 + min k is.length = n + min (k + 1) (is.length + 1) := by omega
  unfold ReadsItems
  rw [List.replicate_succ, itemsFrom_of_moreItems hmore (ends_moreItemsText is rest) hr,
    List.take_succ_cons, List.foldlM_cons, i.verdict_eq hr]
  simp only [List.length_cons, Nat.add_le_add_iff_right, ← hcount]
  cases r with
  | ok s' => exact hbehind s'
  | error e =>
      obtain ⟨left, hleft, -⟩ := hbehind s
      exact ⟨left, hleft, rfl⟩

/-- Where the array ends, readers stop. -/
theorem readsItems_nil (hmore : moreItems (decide (n = 0)) cs = .ok (false, ']' :: rest))
    (k : Nat) (s : σ) : ReadsItems read n (k + 1) [] s cs rest := by
  refine ⟨']' :: rest, symbol_cons rfl rest, ?_⟩
  rw [List.replicate_succ, itemsFrom]
  exact bind_of_ok hmore

theorem readsItems_moreItemsText (k : Nat) (h : ∀ i ∈ is, ∀ s, ∃ r, Reads (read s) i.value r)
    (hn : n ≠ 0) (b : Blanks) (s : σ) (rest : List Char) :
    ReadsItems read n k is s (b.val ++ (moreItemsText is ++ ']' :: rest)) rest := by
  -- induction on the readers; each takes one of the items
  induction k generalizing n is b s with
  | zero =>
      refine ⟨_, ?_, by rw [Nat.zero_min]; rfl⟩
      cases is with
      | nil => exact symbol_blanks b rfl rest
      | cons i is => exact symbol_blanks_of_ne b rfl (by decide) _
  | succ k ih =>
      have hnot : decide (n = 0) = false := decide_eq_false hn
      cases is with
      | nil =>
          refine readsItems_nil ?_ k s
          rw [hnot]
          exact moreItems_end b false rest
      | cons i is =>
          obtain ⟨r, hr⟩ := h i List.mem_cons_self s
          refine readsItems_cons ?_ hr
            (ih (fun i' hi' => h i' (List.mem_cons_of_mem i hi')) (Nat.succ_ne_zero n) i.after)
          rw [hnot, moreItemsText, List.cons_append, List.append_assoc]
          exact moreItems_comma b i _

/-- **What readers make of an array,** behind its opening bracket. -/
theorem readsItems_itemsText (k : Nat) (h : ∀ i ∈ is, ∀ s, ∃ r, Reads (read s) i.value r)
    (inside : Blanks) (s : σ) (rest : List Char) :
    ReadsItems read 0 (k + 1) is s (inside.val ++ (itemsText is ++ ']' :: rest)) rest := by
  cases is with
  | nil => exact readsItems_nil (n := 0) (moreItems_end inside true rest) k s
  | cons i is =>
      obtain ⟨r, hr⟩ := h i List.mem_cons_self s
      refine readsItems_cons (n := 0) ?_ hr fun s => readsItems_moreItemsText k
        (fun i' hi' => h i' (List.mem_cons_of_mem i hi')) (Nat.succ_ne_zero 0) i.after s rest
      rw [itemsText, List.append_assoc]
      exact moreItems_first inside i _

end Items

end Json

end ByteMachine

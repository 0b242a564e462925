import RoffDocBook.Proofs.Markup.LinkedPages

/-! Text whose addresses and references have become links. Each link closes what it opens, no link begins within a
reference to an entity or character, and an address is cut within one only where the semicolon of an ampersand is taken
for punctuation after the address. -/
namespace RoffDocBook.Markup
open Text

/-- Punctuation that is not part of an address at whose end it stands. -/
def isAfterAddress (c : Char) : Bool :=
  ".,;:)!?".toList.elem c

/-- An address without the punctuation at its end. -/
def addressTarget (address : Text) : Text :=
  (address.reverse.dropWhile isAfterAddress).reverse

/-- The start tag of a link to an address. -/
def addressStart (fifth : Bool) (target : Text) : Tag :=
  if fifth then Tag.make false "link".toList (" xlink:href='".toList ++ (target ++ ['\''])) false
  else Tag.make false "ulink".toList (" url='".toList ++ (target ++ ['\''])) false

def addressEnd (fifth : Bool) : Tag :=
  Tag.make true (if fifth then "link".toList else "ulink".toList) [] false

theorem Tag.written_make (isEnd : Bool) (name ending : Text) (isEmpty : Bool) :
    (Tag.make isEnd name ending isEmpty).written =
      ['<'] ++ ((if isEnd then ['/'] else []) ++ (name ++ (ending ++ ['>']))) := by
  simp [Tag.make]

section Address
variable {address : Text}

theorem addressTarget_append (address : Text) :
    ∃ tail, address = addressTarget address ++ tail ∧ ∀ c ∈ tail, isAfterAddress c = true := by
  refine ⟨(address.reverse.takeWhile isAfterAddress).reverse, ?_, ?_⟩
  · have hsplit := List.takeWhile_append_dropWhile (p := isAfterAddress) (l := address.reverse)
    rw [addressTarget, ← List.reverse_append, hsplit, List.reverse_reverse]
  · intro c hc
    exact List.mem_takeWhile_imp (List.mem_reverse.mp hc)

theorem addressLink_eq (fifth : Bool) {target tail : Text} (ht : addressTarget address = target)
    (ha : address = target ++ tail) :
    addressLink fifth address =
      (addressStart fifth target).written ++ (target ++ (addressEnd fifth).written) ++ tail := by
  have hlink : addressLink fifth address =
      if fifth then "<link xlink:href='" ++ addressTarget address ++ "'>" ++ addressTarget address ++ "</link>" ++
        address.drop (addressTarget address).length
      else "<ulink url='" ++ addressTarget address ++ "'>" ++ addressTarget address ++ "</ulink>" ++
        address.drop (addressTarget address).length := rfl
  have hdrop : address.drop target.length = tail := by rw [ha, List.drop_left]
  rw [hlink, ht, hdrop]
  cases fifth
  · rw [if_neg Bool.false_ne_true, addressStart, addressEnd, if_neg Bool.false_ne_true, if_neg Bool.false_ne_true,
      Tag.written_make, Tag.written_make]
    simp only [List.append_assoc]
    rfl
  · rw [if_pos rfl, addressStart, addressEnd, if_pos rfl, if_pos rfl, Tag.written_make, Tag.written_make]
    simp only [List.append_assoc]
    rfl

/-- What stands in a link to an address besides the address has no ampersands. -/
theorem addressLink_parts (fifth : Bool) {tail : Text} (ha : address = addressTarget address ++ tail) :
    ∃ a b, '&' ∉ a ∧ '&' ∉ b ∧ addressLink fifth address =
      a ++ (addressTarget address ++ ("'>".toList ++ (addressTarget address ++ (b ++ tail)))) := by
  rw [addressLink_eq fifth rfl ha]
  cases fifth
  · refine ⟨"<ulink url='".toList, "</ulink>".toList, by decide, by decide, ?_⟩
    rw [addressStart, addressEnd, if_neg Bool.false_ne_true, if_neg Bool.false_ne_true, Tag.written_make,
      Tag.written_make]
    simp only [List.append_assoc]
    rfl
  · refine ⟨"<link xlink:href='".toList, "</link>".toList, by decide, by decide, ?_⟩
    rw [addressStart, addressEnd, if_pos rfl, if_pos rfl, Tag.written_make, Tag.written_make]
    simp only [List.append_assoc]
    rfl

/-- A link around an address is closed. -/
theorem closed_addressLink (fifth : Bool) (ha : ∀ c ∈ "<>'".toList, c ∉ address) :
    Closed (addressLink fifth address) := by
  obtain ⟨tail, hsplit, _⟩ := addressTarget_append address
  have htarget : ∀ c ∈ "<>'".toList, c ∉ addressTarget address := by
    intro c hc hm
    apply ha c hc
    rw [hsplit]
    exact List.mem_append_left _ hm
  have htail : '<' ∉ tail := by
    intro hm
    apply ha '<' (by decide)
    rw [hsplit]
    exact List.mem_append_right _ hm
  have hless := htarget '<' (by decide)
  have hmore := htarget '>' (by decide)
  rw [addressLink_eq fifth rfl hsplit]
  refine Closed.append ?_ (.text htail)
  cases fifth with
  | false =>
    have hvalue : Tag.Ending (' ' :: ("url='".toList ++ (addressTarget address ++ ['\''])))
        (("url='".toList ++ (addressTarget address ++ ['\''])).getLast? == some '/') :=
      .spaced (by decide) (by decide) (by simp [hmore])
    rw [← List.append_assoc, List.getLast?_concat] at hvalue
    exact Closed.element 'u' "link".toList rfl (forall_mem_of_all (by decide)) hvalue (by simp [hless]) (.text hless)
  | true =>
    have hvalue : Tag.Ending (' ' :: ("xlink:href='".toList ++ (addressTarget address ++ ['\''])))
        (("xlink:href='".toList ++ (addressTarget address ++ ['\''])).getLast? == some '/') :=
      .spaced (by decide) (by decide) (by simp [hmore])
    rw [← List.append_assoc, List.getLast?_concat] at hvalue
    exact Closed.element 'l' "ink".toList rfl (forall_mem_of_all (by decide)) hvalue (by simp [hless]) (.text hless)

end Address

/-- Text in which every ampersand is written as a reference to one. -/
def Escaped : Text → Prop
  | [] => True
  | c :: cs => (c = '&' → "amp;".toList <+: cs) ∧ Escaped cs

namespace Escaped

theorem append_text {t : Text} (h : '&' ∉ t) {rest : Text} (hr : Escaped rest) : Escaped (t ++ rest) := by
  induction t with
  | nil => exact hr
  | cons c t ih =>
    rw [List.mem_cons, not_or] at h
    exact ⟨fun hc => absurd hc.symm h.1, ih h.2⟩

theorem addressChars (t : Text) : Escaped (addressChars t) := by
  fun_induction Markup.addressChars t with
  | case1 rest ih => exact ⟨fun _ => List.prefix_append _ _, append_text (t := "amp;".toList) (by decide) ih⟩
  | case2 | case4 => trivial
  | case3 c rest _ hc ih =>
    refine ⟨?_, ih⟩
    rintro rfl
    exact absurd (by decide) hc

/-- Only the semicolon of the reference is punctuation. -/
theorem eq_amp {target rest : Text} {d : Char} (hd : isAfterAddress d = true)
    (h : "amp;".toList = target ++ d :: rest) : target = "amp".toList := by
  have h : ['a', 'm', 'p', ';'] = target ++ d :: rest := h
  rcases target with _ | ⟨a, _ | ⟨b, _ | ⟨c, _ | ⟨e, target⟩⟩⟩⟩
  · cases h
    exact absurd hd (by decide)
  · cases h
    exact absurd hd (by decide)
  · cases h
    exact absurd hd (by decide)
  · cases h
    rfl
  · simp at h

/-- What is left of such a text without the punctuation at its end has complete references, unless the semicolon of the
last one is gone. -/
theorem referenced_of_append {target tail : Text} (h : Escaped (target ++ tail))
    (ht : ∀ c ∈ tail, isAfterAddress c = true) (hn : ¬"&amp".toList <:+ target) : Referenced target := by
  induction target with
  | nil => trivial
  | cons c target ih =>
    refine ⟨?_, ih h.2 fun hs => hn (hs.trans (List.suffix_cons _ _))⟩
    rintro rfl
    obtain ⟨more, hmore⟩ := h.1 rfl
    have hlong : "amp;".toList <+: target := by
      rcases List.append_eq_append_iff.mp hmore with ⟨rest, htarget, _⟩ | ⟨rest, hamp, htail⟩
      · exact ⟨rest, htarget.symm⟩
      · cases rest with
        | nil => exact ⟨[], by rw [hamp, List.append_nil, List.append_nil]⟩
        | cons d rest =>
          have hd : isAfterAddress d = true := ht d (by rw [htail]; simp)
          obtain rfl := eq_amp hd hamp
          exact absurd List.suffix_rfl hn
    obtain ⟨rest, rfl⟩ := hlong
    exact ⟨"amp".toList, rest, by decide, rfl⟩

end Escaped
/-- A character of a mail address. -/
def isMailChar (c : Char) : Bool :=
  isLocalChar c || c == '@'

section Found
variable {t : Text}

theorem addressChars_prefix (t : Text) : addressChars t <+: t := by
  fun_induction addressChars t with
  | case1 rest ih => exact (List.prefix_append_right_inj "&amp;".toList).mpr ih
  | case2 | case4 => exact List.nil_prefix
  | case3 c rest _ _ ih => exact (List.prefix_append_right_inj [c]).mpr ih

theorem notMem_addressChars {c : Char} (hc : c ∈ "<>'".toList) (t : Text) : c ∉ addressChars t := by
  fun_induction addressChars t with
  | case1 rest ih =>
    have hall : ∀ d ∈ "<>'".toList, d ∉ "&amp;".toList := forall_mem_of_all (by decide)
    rw [List.mem_append, not_or]
    exact ⟨hall c hc, ih⟩
  | case2 | case4 => exact List.not_mem_nil
  | case3 d rest _ hd ih =>
    have hall : ∀ e ∈ "<>'".toList, (isBlank e || "<>\"'&".toList.elem e) = true :=
      forall_mem_of_all (by decide)
    rw [List.mem_cons, not_or]
    refine ⟨?_, ih⟩
    rintro rfl
    exact hd (hall c hc)

/-- An address is a scheme with characters after it. -/
theorem readAddress?_eq_some {address : Text} (h : readAddress? t = some address) :
    ∃ scheme ∈ (["https://", "http://", "ftp://"] : List Text), ∃ rest,
      t = scheme ++ rest ∧ address = scheme ++ addressChars rest := by
  obtain ⟨scheme, hm, hs⟩ := List.exists_of_findSome?_eq_some h
  obtain ⟨rest, hdrop, hfound⟩ := Option.bind_eq_some_iff.mp hs
  split at hfound
  · cases hfound
  · exact ⟨scheme, hm, rest, dropStart?_eq_some hdrop, (Option.some.inj hfound).symm⟩

theorem isMailChar_of_isLocalChar {c : Char} (h : isLocalChar c = true) : isMailChar c = true := by
  rw [isMailChar, h, Bool.true_or]

theorem isMailChar_of_isLabelChar {c : Char} (h : isLabelChar c = true) : isMailChar c = true := by
  rw [isLabelChar, Bool.or_eq_true] at h
  rw [isMailChar, isLocalChar]
  rcases h with h | h <;> simp [h]

theorem domainLabels_append (fuel : Nat) (t : Text) :
    (∃ rest, t = domainLabels fuel t ++ rest) ∧ ∀ c ∈ domainLabels fuel t, isMailChar c = true := by
  fun_induction domainLabels fuel t with
  | case1 | case2 | case4 => exact ⟨⟨_, rfl⟩, by simp⟩
  | case3 fuel rest label hne ih =>
    obtain ⟨⟨after, hafter⟩, hchars⟩ := ih
    have hlabel : ∀ c ∈ label, isMailChar c = true := fun c hc =>
      isMailChar_of_isLabelChar (List.mem_takeWhile_imp hc)
    refine ⟨⟨after, ?_⟩, ?_⟩
    · have hrest : rest = label ++ (domainLabels fuel (rest.dropWhile isLabelChar) ++ after) := by
        rw [← hafter, List.takeWhile_append_dropWhile]
      rw [← List.append_assoc] at hrest
      exact congrArg ('.' :: ·) hrest
    · simp only [List.cons_append, List.forall_mem_cons, List.forall_mem_append]
      exact ⟨by decide, hlabel, hchars⟩

/-- A mail address has one commercial at, with an account before it. -/
theorem readMail?_eq_some {mail : Text} (h : readMail? t = some mail) :
    ∃ account domain rest, t = mail ++ rest ∧ mail = account ++ '@' :: domain ∧
      (∀ c ∈ account, isLocalChar c = true) ∧ ∀ c ∈ mail, isMailChar c = true := by
  unfold readMail? at h
  have hsplit := List.takeWhile_append_dropWhile (p := isLocalChar) (l := t)
  have haccount : ∀ c ∈ t.takeWhile isLocalChar, isLocalChar c = true := fun c hc => List.mem_takeWhile_imp hc
  generalize t.takeWhile isLocalChar = account at *
  generalize t.dropWhile isLocalChar = after at *
  dsimp only at h
  split at h
  · rename_i first more rest
    split at h
    · cases h
    · obtain ⟨⟨last, hlast⟩, hlabels⟩ := domainLabels_append rest.length (rest.dropWhile isLabelChar)
      have hlabel : ∀ c ∈ rest.takeWhile isLabelChar, isMailChar c = true := fun c hc =>
        isMailChar_of_isLabelChar (List.mem_takeWhile_imp hc)
      have hrest := List.takeWhile_append_dropWhile (p := isLabelChar) (l := rest)
      generalize domainLabels rest.length (rest.dropWhile isLabelChar) = labels at *
      generalize rest.takeWhile isLabelChar = label at *
      obtain rfl := Option.some.inj h
      refine ⟨first :: more, label ++ labels, last, ?_, by simp, haccount, ?_⟩
      · rw [← hsplit, ← hrest, hlast]
        simp
      · simp only [List.forall_mem_append, List.forall_mem_cons]
        have hlocal := fun c hc => isMailChar_of_isLocalChar (haccount c hc)
        exact ⟨⟨List.forall_mem_cons.mp hlocal, by decide, hlabel⟩, hlabels⟩
  · cases h

/-- A page is named by its title and its section in parentheses. -/
theorem readPage?_eq_some {name volume : Text} (h : readPage? t = some (name, volume)) :
    ∃ rest, t = name ++ '(' :: (volume ++ [')']) ++ rest ∧ (∀ c ∈ name, isPageNameChar c = true) ∧ IsVolume volume := by
  unfold readPage? at h
  split at h
  · rename_i c cs
    dsimp only at h
    split at h
    · obtain ⟨found, hvolume, hfound⟩ := Option.map_eq_some_iff.mp h
      obtain ⟨rfl, rfl⟩ := Prod.mk.inj hfound
      obtain ⟨hv, rest, hrest⟩ := readVolume?_eq_some hvolume
      refine ⟨rest, ?_, ?_, hv⟩
      · have hsplit := List.takeWhile_append_dropWhile (p := fun c => isWordChar c || ".+:-".toList.elem c) (l := c :: cs)
        rw [hrest] at hsplit
        exact hsplit.symm.trans (by simp)
      · intro d hd
        have hclass : (isWordChar d || ".+:-".toList.elem d) = true :=
          List.mem_takeWhile_imp (p := fun c => isWordChar c || ".+:-".toList.elem c) hd
        have hsame : ∀ e ∈ ".+:-".toList, isPageNameChar e = true := forall_mem_of_all (by decide)
        rcases Bool.or_eq_true_iff.mp hclass with hword | helem
        · rw [isPageNameChar, hword, Bool.true_or]
        · exact hsame d (List.elem_iff.mp helem)
    · cases h
  · cases h

end Found

/-- What is made a link where a text begins with it, and the link. -/
inductive Link (fifth : Bool) (t : Text) : Text → Text → Prop where
  | address {address : Text} (h : readAddress? t = some address) : Link fifth t address (addressLink fifth address)
  | mail {account domain : Text} (ha : ∀ c ∈ account, isLocalChar c = true)
      (hm : ∀ c ∈ account ++ '@' :: domain, isMailChar c = true) :
      Link fifth t (account ++ '@' :: domain) ("<email>" ++ (account ++ '@' :: domain) ++ "</email>")
  | page {name volume : Text} (hn : ∀ c ∈ name, isPageNameChar c = true) (hv : IsVolume volume) :
      Link fifth t (name ++ '(' :: (volume ++ [')'])) (pageReference name volume)

theorem readLink?_eq_some {fifth : Bool} {previous : Option Char} {t new : Text} {length : Nat}
    (h : readLink? fifth previous t = some (new, length)) :
    ∃ found rest, found ≠ [] ∧ t = found ++ rest ∧ length = found.length ∧ Link fifth t found new := by
  unfold readLink? at h
  split at h
  · cases h
  · split at h
    · rename_i address haddress
      obtain ⟨rfl, rfl⟩ := Prod.mk.inj (Option.some.inj h)
      obtain ⟨scheme, hm, rest, ht, ha⟩ := readAddress?_eq_some haddress
      obtain ⟨after, hafter⟩ := addressChars_prefix rest
      refine ⟨address, after, ?_, ?_, rfl, .address haddress⟩
      · have hnonempty : ∀ s ∈ (["https://", "http://", "ftp://"] : List Text), s ≠ [] := by decide
        rw [ha]
        exact List.append_ne_nil_of_left_ne_nil (hnonempty scheme hm) _
      · rw [ht, ha, List.append_assoc, hafter]
    · split at h
      · rename_i mail hmail
        obtain ⟨rfl, rfl⟩ := Prod.mk.inj (Option.some.inj h)
        obtain ⟨account, domain, rest, ht, rfl, ha, hm⟩ := readMail?_eq_some hmail
        exact ⟨_, rest, by simp, ht, rfl, .mail ha hm⟩
      · obtain ⟨⟨name, volume⟩, hpage, hfound⟩ := Option.map_eq_some_iff.mp h
        obtain ⟨rfl, rfl⟩ := Prod.mk.inj hfound
        obtain ⟨rest, ht, hn, hv⟩ := readPage?_eq_some hpage
        exact ⟨_, rest, by simp, ht, by simp; omega, .page hn hv⟩

namespace Link
variable {fifth : Bool} {t found new rest : Text} (h : Link fifth t found new)
include h

theorem closed : Closed new := by
  cases h with
  | address h =>
    obtain ⟨scheme, hm, rest, _, rfl⟩ := readAddress?_eq_some h
    apply closed_addressLink
    intro c hc
    have hscheme : ∀ c ∈ "<>'".toList, ∀ s ∈ (["https://", "http://", "ftp://"] : List Text), c ∉ s :=
      forall_mem_of_all (by decide)
    rw [List.mem_append, not_or]
    exact ⟨hscheme c hc scheme hm, notMem_addressChars hc rest⟩
  | @mail account domain _ hm =>
    have hless : '<' ∉ account ++ '@' :: domain := fun hc => absurd (hm '<' hc) (by decide)
    exact Closed.element 'e' "mail".toList rfl (forall_mem_of_all (by decide)) .bare (by decide) (.text hless)
  | page hn hv => exact closed_pageReference (notMem_of_isPageNameChar hn (by decide)) (hv.notMem (Or.inl rfl))

/-- An address that is not cut within a reference makes a link with complete references. -/
theorem referenced (hw : ∀ address, readAddress? t = some address → ¬"&amp".toList <:+ addressTarget address) :
    Referenced new := by
  cases h with
  | address h =>
    have hescaped : Escaped found := by
      obtain ⟨scheme, hm, rest, _, rfl⟩ := readAddress?_eq_some h
      have hscheme : ∀ s ∈ (["https://", "http://", "ftp://"] : List Text), '&' ∉ s := by decide
      exact .append_text (hscheme scheme hm) (.addressChars rest)
    obtain ⟨tail, hsplit, hpunctuation⟩ := addressTarget_append found
    rw [hsplit] at hescaped
    have htarget := hescaped.referenced_of_append hpunctuation (hw found h)
    have htail : Referenced tail :=
      referenced_of_notMem fun hm => absurd (hpunctuation '&' hm) (by decide)
    obtain ⟨a, b, ha, hb, hlink⟩ := addressLink_parts fifth hsplit
    rw [hlink]
    exact (referenced_of_notMem ha).append (htarget.append ((referenced_of_notMem (by decide)).append
      (htarget.append ((referenced_of_notMem hb).append htail))))
  | @mail account domain _ hm =>
    have hamp : '&' ∉ account ++ '@' :: domain := fun hc => absurd (hm '&' hc) (by decide)
    have hwhole := (referenced_of_notMem (t := "<email>".toList) (by decide)).append (referenced_of_notMem hamp)
    exact hwhole.append (referenced_of_notMem (by decide))
  | page hn hv =>
    exact referenced_pageReference (notMem_of_isPageNameChar hn (by decide)) (hv.notMem (Or.inr rfl))

/-- Each kind of link has a character that no reference to an entity or character holds. -/
theorem exists_apart (ht : t = found ++ rest) :
    ∃ head c more, t = head ++ c :: more ∧ c ∈ "/@(".toList ∧ ';' ∉ head := by
  cases h with
  | address h =>
    obtain ⟨scheme, hm, rest, rfl, _⟩ := readAddress?_eq_some h
    simp only [List.mem_cons, List.not_mem_nil, or_false] at hm
    rcases hm with rfl | rfl | rfl
    · exact ⟨"https:".toList, '/', '/' :: rest, rfl, by decide, by decide⟩
    · exact ⟨"http:".toList, '/', '/' :: rest, rfl, by decide, by decide⟩
    · exact ⟨"ftp:".toList, '/', '/' :: rest, rfl, by decide, by decide⟩
  | @mail account domain ha _ =>
    exact ⟨account, '@', domain ++ rest, by rw [ht]; simp, by decide, fun hm => absurd (ha ';' hm) (by decide)⟩
  | @page name volume hn hv =>
    exact ⟨name, '(', volume ++ [')'] ++ rest, by rw [ht]; simp, by decide, notMem_of_isPageNameChar hn (by decide)⟩

end Link

/-- No link begins within a reference to an entity or character. -/
theorem readLink?_reference (fifth : Bool) {name : Text} (hn : isReferenceName name = true) {c : Char} {s : Text}
    (hs : c :: s <:+ '&' :: (name ++ [';'])) (before : Option Char) (rest : Text) :
    readLink? fifth before (c :: s ++ rest) = none := by
  cases hfound : readLink? fifth before (c :: s ++ rest) with
  | none => rfl
  | some answer =>
    obtain ⟨new, length⟩ := answer
    obtain ⟨found, after, _, ht, _, hlink⟩ := readLink?_eq_some hfound
    obtain ⟨head, d, more, hshape, hd, hhead⟩ := hlink.exists_apart ht
    have hclass : isReferenceChar d = false ∧ d ≠ '&' ∧ d ≠ ';' := by
      have hall : ∀ e ∈ "/@(".toList, isReferenceChar e = false ∧ e ≠ '&' ∧ e ≠ ';' :=
        forall_mem_of_all (by decide)
      exact hall d hd
    have hapart : d ∉ c :: s := by
      intro hm
      have hwhole := hs.subset hm
      simp only [List.mem_cons, List.mem_append, List.not_mem_nil, or_false] at hwhole
      rcases hwhole with hamp | hname | hsemi
      · exact hclass.2.1 hamp
      · exact notMem_of_isReferenceName hn hclass.1 hname
      · exact hclass.2.2 hsemi
    have hlast : ';' ∈ c :: s := by
      obtain ⟨front, hfront⟩ := hs
      have hend := congrArg List.getLast? hfront
      rw [← List.cons_append, List.getLast?_concat, List.getLast?_append_of_ne_nil _ (List.cons_ne_nil c s)] at hend
      exact List.mem_of_getLast? hend
    rcases List.append_eq_append_iff.mp hshape with ⟨a, rfl, hrest⟩ | ⟨a, hcs, hmore⟩
    · exact absurd (List.mem_append_left _ hlast) hhead
    · cases a with
      | nil =>
        rw [List.append_nil] at hcs
        exact absurd (hcs ▸ hlast) hhead
      | cons e a =>
        obtain ⟨rfl, _⟩ := List.cons.inj hmore
        exact absurd (by rw [hcs]; simp) hapart

/-- No address in a text ends within the reference to an ampersand when the punctuation after it is left out. -/
def AddressesWhole (t : Text) : Prop :=
  ∀ s ∈ t.tails, ∀ address ∈ readAddress? s, ¬"&amp".toList <:+ addressTarget address

instance (t : Text) : Decidable (AddressesWhole t) :=
  inferInstanceAs (Decidable (∀ s ∈ t.tails, ∀ address ∈ readAddress? s, _))

theorem AddressesWhole.suffix {t rest : Text} (h : AddressesWhole (t ++ rest)) : AddressesWhole rest :=
  fun s hs => h s ((List.mem_tails s _).mpr (((List.mem_tails s rest).mp hs).trans (List.suffix_append t rest)))

section Rewritten
variable {fifth : Bool} {previous : Option Char} {t out : Text}

/-- What is found at the start of a text is what the link stands for. -/
theorem link_of_read {found rest new : Text}
    (h : readLink? fifth previous (found ++ rest) = some (new, found.length)) : Link fifth (found ++ rest) found new := by
  obtain ⟨other, after, _, hshape, hlength, hlink⟩ := readLink?_eq_some h
  obtain ⟨rfl, _⟩ := List.append_inj hshape hlength
  exact hlink

theorem closed_of_rewrites (h : Rewrites (readLink? fifth) previous t out) (ht : '<' ∉ t) : Closed out := by
  induction h with
  | nil => exact .text ht
  | @keep _ c _ _ _ _ ih =>
    rw [List.mem_cons, not_or] at ht
    exact (Closed.text (t := [c]) (by simpa using ht.1)).append (ih ht.2)
  | swap hf _ ih => exact (link_of_read hf).closed.append (ih fun hm => ht (List.mem_append_right _ hm))

theorem referenced_of_rewrites (h : Rewrites (readLink? fifth) previous t out) (hr : Referenced t)
    (hw : AddressesWhole t) : Referenced out := by
  induction h with
  | nil => trivial
  | @keep _ c rest out _ hout ih =>
    refine ⟨?_, ih hr.2 (hw.suffix (t := [c]))⟩
    rintro rfl
    obtain ⟨name, after, hn, hshape⟩ := hr.1 rfl
    obtain ⟨_, hrest⟩ := List.cons.inj hshape
    have hkept : rest = (name ++ [';']) ++ after := by rw [hrest]; simp
    rw [hkept] at hout
    obtain ⟨_, more, rfl, _⟩ := hout.kept fun c s hs before =>
      readLink?_reference fifth hn (hs.trans (List.suffix_cons _ _)) before after
    exact ⟨name, more, hn, by simp⟩
  | swap hf _ ih =>
    have hself := hw _ ((List.mem_tails _ _).mpr List.suffix_rfl)
    exact ((link_of_read hf).referenced hself).append (ih hr.suffix hw.suffix)

end Rewritten

theorem rewrites_linkText (fifth : Bool) (t : Text) : Rewrites (readLink? fifth) none t (linkText fifth t) := by
  refine Rewrites.replaceFoundFrom ?_ none t
  intro previous t new length h
  obtain ⟨found, rest, hne, ht, hlength, _⟩ := readLink?_eq_some h
  exact ⟨found, rest, hne, ht, hlength⟩

end RoffDocBook.Markup

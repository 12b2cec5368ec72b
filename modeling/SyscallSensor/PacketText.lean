import SyscallSensor.FileStream
import SyscallSensor.SocketStream
import SyscallSensor.Lib.Joined

/-! Which packets the socket text tells apart. Names are not escaped, and a name that holds the
end of one record and the start of the next is read as a record boundary. -/
namespace SyscallSensor.PacketText
open Text Trace SocketStream FileLog
open Lib.Decimal (intText)
open Lib.Joined (Follows)

/- What `collect` makes: a short name without newline or NUL, and no argument. -/
structure Collected16 (r : SysParamsRecord) : Prop where
  collected : Collected r
  no_nul : 0 ∉ r._name
  short : r._name.length ≤ 16

/-- The end of a record and the start of another inside a name and its closing quote. -/
def HasBoundary (name : List Byte) : Prop :=
  ∃ front back pid syscall, name ++ ascii "'" = front ++ (ascii "','" ++ intText pid ++
    ascii "','" ++ intText syscall ++ ascii "',''),('" ++ back)

/- The texts of the records of a packet. -/
def ItemText (text : List Byte) : Prop :=
  ∃ r : SysParamsRecord, r._arg = [] ∧ ¬ HasBoundary r._name ∧ text = item r

/- Behind the name: from its closing quote to the last parenthesis, which is the only one. -/
def itemTail (r : SysParamsRecord) : List Byte :=
  ascii "','" ++ intText r._pid ++ ascii "','" ++ intText r._syscall ++ ascii "',''"

theorem item_eq {r : SysParamsRecord} (h : r._arg = []) :
    item r = ascii "('" ++ r._name ++ itemTail r ++ ascii ")" := by
  have hopen : ascii "('" = ascii "(" ++ ascii "'" := by decide
  have hclose : ascii "',''" = ascii "','" ++ ascii "'" := by decide
  rw [item, SysParamsRecord.to_string, itemTail, h, hopen, hclose]
  simp only [List.append_assoc, List.nil_append]

theorem itemTail_noParen (r : SysParamsRecord) : (41 : Byte) ∉ itemTail r := by
  have hint : ∀ v, (41 : Byte) ∉ intText v := Lib.Decimal.not_mem_intText (by decide)
  have hsep : (41 : Byte) ∉ ascii "','" ∧ (41 : Byte) ∉ ascii "',''" := by decide
  simp [itemTail, hint, hsep]

/-- A name with a boundary also holds the end of a record and the quote of the next name. -/
theorem HasBoundary.opening {name : List Byte} (h : HasBoundary name) :
    ascii "',''),('" <:+: name ++ ascii "'" := by
  obtain ⟨front, back, pid, syscall, hname⟩ := h
  refine ⟨front ++ (ascii "','" ++ intText pid ++ ascii "','" ++ intText syscall), back, ?_⟩
  rw [hname]
  simp only [List.append_assoc]

/-- A shorter item that the longer one starts with ends inside the name of the longer one. -/
theorem ends_in_name {a b : SysParamsRecord} (ha : a._arg = []) (hb : b._arg = [])
    {t : List Byte} (ht : t ≠ []) (h : item b = item a ++ t) :
    ∃ m, ascii "('" ++ b._name = item a ++ m ∧ ∃ c, t = m ++ itemTail b ++ [c] := by
  have hparen : ascii ")" = [41] := by decide
  obtain ⟨t', c, rfl⟩ := List.eq_nil_or_concat t |>.resolve_left ht
  rw [item_eq hb, hparen, List.concat_eq_append, ← List.append_assoc] at h
  have hfront := (List.append_inj' h rfl).1
  cases List.append_eq_append_iff.mp hfront with
  | inl hlate =>
    obtain ⟨m, hitem, htail⟩ := hlate
    cases List.eq_nil_or_concat m with
    | inl hnil =>
      rw [hnil, List.append_nil] at hitem
      rw [hnil, List.nil_append] at htail
      exact ⟨[], by rw [hitem, List.append_nil], c, by rw [htail, List.concat_eq_append]; rfl⟩
    | inr hsnoc =>
      -- the parenthesis that ends the shorter item would stand in the tail of the longer one
      obtain ⟨m', d, rfl⟩ := hsnoc
      rw [item_eq ha, hparen, List.concat_eq_append, ← List.append_assoc] at hitem
      have hlast := (List.append_inj' hitem rfl).2
      refine absurd ?_ (itemTail_noParen b)
      rw [htail, ← List.singleton_inj.mp hlast]
      simp
  | inr hearly =>
    obtain ⟨m, hname, htail⟩ := hearly
    exact ⟨m, hname, c, by rw [htail, List.concat_eq_append]⟩

/-- An item that is cut short by another one has a boundary in its name. -/
theorem hasBoundary_of_shorter {a b : SysParamsRecord} (ha : a._arg = []) (hb : b._arg = [])
    {r r' : List Byte} (hr : Follows (ascii ",") ItemText r) (h : item a ++ r = item b ++ r')
    (hlt : (item a).length < (item b).length) : HasBoundary b._name := by
  cases List.append_eq_append_iff.mp h with
  | inr hlong =>
    obtain ⟨t, hitem, -⟩ := hlong
    rw [hitem, List.length_append] at hlt
    omega
  | inl hshort =>
    obtain ⟨t, hitem, hrest⟩ := hshort
    have ht : t ≠ [] := by
      intro hnil
      rw [hitem, hnil, List.append_nil] at hlt
      omega
    obtain ⟨m, hname, c, rfl⟩ := ends_in_name ha hb ht hitem
    have hquote : ∃ q, itemTail b = 39 :: q := ⟨_, rfl⟩
    obtain ⟨q, hq⟩ := hquote
    cases hr with
    | inl hnil => simp [hnil, hq] at hrest
    | inr hnext =>
      obtain ⟨text, r'', ⟨z, hz, -, rfl⟩, rfl⟩ := hnext
      -- the next item starts inside the name: its comma and parenthesis are there
      have hopen : ascii "," ++ (item z ++ r'') =
          44 :: 40 :: 39 :: (z._name ++ itemTail z ++ ascii ")" ++ r'') := by
        rw [item_eq hz]
        rfl
      rw [hopen, hq] at hrest
      cases m with
      | nil => simp at hrest
      | cons x m =>
        cases m with
        | nil => simp at hrest
        | cons y m =>
          simp only [List.cons_append, List.cons.injEq] at hrest
          have hend : ascii "',''),('" = ascii "',''" ++ (ascii ")" ++ [44, 40, 39]) := by decide
          -- the quote of the next item is in the name or closes it
          have hquoted : ∃ back, m ++ ascii "'" = 39 :: back := by
            cases m with
            | nil => exact ⟨[], rfl⟩
            | cons w m => exact ⟨m ++ ascii "'", by rw [← (List.cons.inj hrest.2.2).1]; rfl⟩
          obtain ⟨back, hback⟩ := hquoted
          refine ⟨a._name, back, a._pid, a._syscall, ?_⟩
          apply (List.append_right_inj (ascii "('")).mp
          rw [← List.append_assoc, hname, item_eq ha, ← hrest.1, ← hrest.2.1, hend, itemTail,
            List.append_assoc, List.cons_append, List.cons_append, hback]
          simp only [List.append_assoc, List.cons_append, List.nil_append]

/-- The first item can be cut off, whatever follows it. -/
theorem item_cut {x y r r' : List Byte} (hx : ItemText x) (hy : ItemText y)
    (hr : Follows (ascii ",") ItemText r) (hr' : Follows (ascii ",") ItemText r')
    (h : x ++ r = y ++ r') : x = y := by
  obtain ⟨a, ha, hplain, rfl⟩ := hx
  obtain ⟨b, hb, hplain', rfl⟩ := hy
  have hlength : (item a).length = (item b).length := by
    cases Nat.lt_trichotomy (item a).length (item b).length with
    | inl hlt => exact absurd (hasBoundary_of_shorter ha hb hr h hlt) hplain'
    | inr hge =>
      cases hge with
      | inl heq => exact heq
      | inr hgt => exact absurd (hasBoundary_of_shorter hb ha hr' h.symm hgt) hplain
  exact (List.append_inj h hlength).1

theorem item_ne_nil {x : List Byte} (hx : ItemText x) : x ≠ [] := by
  obtain ⟨r, -, -, rfl⟩ := hx
  exact List.cons_ne_nil _ _

theorem item_injective {a b : SysParamsRecord} (ha : Collected a) (hb : Collected b)
    (h : item a = item b) : a = b := by
  have htext : a.to_string = b.to_string := List.append_cancel_left (List.append_cancel_right h)
  have hfields := decodeRecord_to_string ha
  rw [htext, decodeRecord_to_string hb, Option.some.injEq] at hfields
  rw [← ofFields_fields ha, ← hfields, ofFields_fields hb]

theorem map_item_injective {records records' : List SysParamsRecord}
    (h : ∀ r ∈ records, Collected r) (h' : ∀ r ∈ records', Collected r)
    (heq : records.map item = records'.map item) : records = records' := by
  induction records generalizing records' with
  | nil => exact (List.map_eq_nil_iff.mp heq.symm).symm
  | cons r records ih =>
    cases records' with
    | nil => cases heq
    | cons r' records' =>
      rw [List.forall_mem_cons] at h h'
      rw [List.map_cons, List.map_cons, List.cons.injEq] at heq
      rw [item_injective h.1 h'.1 heq.1, ih h.2 h'.2 heq.2]

/- A record of `collect` whose name has no boundary. -/
def Plain (r : SysParamsRecord) : Prop := Collected16 r ∧ ¬ HasBoundary r._name

theorem plain_nulFree {r : SysParamsRecord} (h : Plain r) : NulFree r :=
  ⟨h.1.no_nul, by rw [h.1.collected.2]; exact List.not_mem_nil⟩

theorem plain_itemTexts {records : List SysParamsRecord} (h : ∀ r ∈ records, Plain r) :
    ∀ text ∈ records.map item, ItemText text := by
  intro text htext
  obtain ⟨r, hr, rfl⟩ := List.mem_map.mp htext
  exact ⟨r, (h r hr).1.collected.2, (h r hr).2, rfl⟩

/-- Among records whose names have no boundary, which takes at least fifteen bytes, the text
of a packet determines the records. -/
theorem packet_identifies_records {meta_ : List Byte} {timestamp : Int} (hmeta : 0 ∉ meta_)
    {records records' : List SysParamsRecord} (h : ∀ r ∈ records, Plain r)
    (h' : ∀ r ∈ records', Plain r)
    (heq : to_json meta_ timestamp records = to_json meta_ timestamp records') :
    records = records' := by
  rw [to_json_eq hmeta fun r hr => plain_nulFree (h r hr),
    to_json_eq hmeta fun r hr => plain_nulFree (h' r hr), packetText, packetText] at heq
  have hjoined := List.append_cancel_left (List.append_cancel_right heq)
  have htexts := Lib.Joined.intercalate_injective (fun x hx => item_ne_nil hx)
    (fun x y r r' hx hy hr hr' hxy => item_cut hx hy hr hr' hxy)
    (plain_itemTexts h) (plain_itemTexts h') hjoined
  exact map_item_injective (fun r hr => (h r hr).1.collected)
    (fun r hr => (h' r hr).1.collected) htexts

/- Two names that are one byte away from a boundary. -/
def quotedName : List SysParamsRecord :=
  [{ _name := ascii "','1','2','),('", _pid := -7, _syscall := 3 },
    { _name := ascii "','7','9',''),[", _pid := 12, _syscall := 4 }]

theorem quotedName_plain : ∀ r ∈ quotedName, Plain r := by
  have hnames : ∀ r ∈ quotedName, Collected r ∧ 0 ∉ r._name ∧ r._name.length ≤ 16 ∧
      ¬ ascii "',''),('" <:+: r._name ++ ascii "'" := by decide
  intro r hr
  obtain ⟨hcollected, hnul, hshort, hopening⟩ := hnames r hr
  exact ⟨⟨hcollected, hnul, hshort⟩, fun hboundary => hopening hboundary.opening⟩

theorem packet_identifies_quotedName :
    quotedName.reverse.reverse = quotedName ∧
      to_json (ascii "sensor1") 0 quotedName.reverse ≠ to_json (ascii "sensor1") 0 quotedName := by
  have hmeta : 0 ∉ ascii "sensor1" := by decide
  have hreverse : ∀ r ∈ quotedName.reverse, Plain r :=
    fun r hr => quotedName_plain r (List.mem_reverse.mp hr)
  refine ⟨packet_identifies_records hmeta (fun r hr => quotedName_plain r (by simpa using hr))
    quotedName_plain (show to_json (ascii "sensor1") 0 quotedName.reverse.reverse = _ from rfl), ?_⟩
  intro heq
  exact absurd (packet_identifies_records hmeta hreverse quotedName_plain heq) (by decide)

/- One record under a name of sixteen bytes, and two records without names. -/
def forged : List SysParamsRecord :=
  [{ _name := ascii "','1','2',''),('", _pid := 3, _syscall := 4 }]

def forgedAs : List SysParamsRecord :=
  [{ _pid := 1, _syscall := 2 }, { _pid := 3, _syscall := 4 }]

theorem forged_text : writeRecords forged = writeRecords forgedAs := by decide

theorem name_forges_record :
    ¬ ∀ records records' : List SysParamsRecord, (∀ r ∈ records, Collected16 r) →
      (∀ r ∈ records', Collected16 r) →
      to_json (ascii "sensor1") 0 records = to_json (ascii "sensor1") 0 records' →
      records = records' := by
  intro h
  have hforged : ∀ r ∈ forged, Collected16 r := by
    intro r hr
    rw [List.mem_singleton.mp hr]
    exact ⟨by decide, by decide, by decide⟩
  have hforgedAs : ∀ r ∈ forgedAs, Collected16 r := by
    intro r hr
    cases List.mem_cons.mp hr with
    | inl hr =>
      rw [hr]
      exact ⟨by decide, by decide, by decide⟩
    | inr hr =>
      rw [List.mem_singleton.mp hr]
      exact ⟨by decide, by decide, by decide⟩
  have hjson : to_json (ascii "sensor1") 0 forged = to_json (ascii "sensor1") 0 forgedAs := by
    rw [to_json, to_json, forged_text]
  have hlength := congrArg List.length (h forged forgedAs hforged hforgedAs hjson)
  exact absurd hlength (by decide)

end SyscallSensor.PacketText

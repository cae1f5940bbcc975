import Mbtest.Lib.Frame

/-! The host conversions and socket reads that server and client share. -/
namespace Mbtest
open Lib

def htons (o : ByteOrder) (x : UInt16) : UInt16 := UInt16.ofNat (o.swap 2 x.toNat)

def ntohs (o : ByteOrder) (x : UInt16) : UInt16 := UInt16.ofNat (o.swap 2 x.toNat)

def ntohl (o : ByteOrder) (x : UInt32) : UInt32 := UInt32.ofNat (o.swap 4 x.toNat)

/-- The bytes behind the address of a 16-bit variable. -/
def mem16 (o : ByteOrder) (x : UInt16) : List UInt8 := o.store 2 x.toNat

def mem32 (o : ByteOrder) (x : UInt32) : List UInt8 := o.store 4 x.toNat

/-- A 16-bit variable whose memory is `bs`. -/
def load16 (o : ByteOrder) (bs : List UInt8) : UInt16 := UInt16.ofNat (o.load bs)

def load32 (o : ByteOrder) (bs : List UInt8) : UInt32 := UInt32.ofNat (o.load bs)

theorem mem16_htons (o : ByteOrder) (x : UInt16) : mem16 o (htons o x) = toBytes 2 x.toNat := by
  have h : o.swap 2 x.toNat < 2 ^ 16 := o.swap_lt 2 x.toNat
  rw [mem16, htons, UInt16.toNat_ofNat_of_lt' h, o.store_swap]

theorem mem32_ntohl (o : ByteOrder) (x : UInt32) : mem32 o (ntohl o x) = toBytes 4 x.toNat := by
  have h : o.swap 4 x.toNat < 2 ^ 32 := o.swap_lt 4 x.toNat
  rw [mem32, ntohl, UInt32.toNat_ofNat_of_lt' h, o.store_swap]

theorem ntohs_load16 (o : ByteOrder) {bs : List UInt8} (hbs : bs.length = 2) :
    ntohs o (load16 o bs) = UInt16.ofNat (ofBytes bs) := by
  have h : o.load bs < 2 ^ 16 := by simpa [hbs] using o.load_lt bs
  rw [ntohs, load16, UInt16.toNat_ofNat_of_lt' h, ← hbs, o.swap_load]

theorem ntohl_load32 (o : ByteOrder) {bs : List UInt8} (hbs : bs.length = 4) :
    ntohl o (load32 o bs) = UInt32.ofNat (ofBytes bs) := by
  have h : o.load bs < 2 ^ 32 := by simpa [hbs] using o.load_lt bs
  rw [ntohl, load32, UInt32.toNat_ofNat_of_lt' h, ← hbs, o.swap_load]

/-- Outcome of one `boost::asio::read`: the bytes that arrived and whether
`error_code` was set. -/
structure ReadResult where
  bytes : List UInt8
  ec : Bool
  deriving DecidableEq, Repr

/-- A socket as its reader sees it: `read n` on a socket in state `S`. -/
abbrev Source (S : Type) := ℕ → S → ReadResult × S

/-- A peer that sends a finite stream and closes: `read` waits for all the bytes
asked for and fails with end of file when the stream ends before. -/
def streamRead : Source (List UInt8) := fun n s =>
  (⟨s.take n, decide (s.length < n)⟩, s.drop n)

theorem streamRead_append (bs rest : List UInt8) :
    streamRead bs.length (bs ++ rest) = (⟨bs, false⟩, rest) := by
  simp [streamRead]

end Mbtest

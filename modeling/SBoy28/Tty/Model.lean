import SBoy28.Windows.Screen

/-!
# The terminal

`tty.c` writes characters into cells of 8 by 8 pixels of the backbuffer. A character is drawn over what is in
its cell, and when the last line is full the screen is cleared instead of scrolled.
-/

namespace SBoy28.Tty
open Lib Windows

def ttyWidth : UInt32 := 40
def ttyHeight : UInt32 := 25
def newline : UInt8 := 10

/-- The statics of `tty.c`, and the backbuffer that they write to. -/
structure TtyState where
  column : UInt32
  row : UInt32
  foreColor : UInt8
  backColor : UInt8
  backbuffer : Backbuffer

def TtyState.boot (backbuffer : Backbuffer) : TtyState := ⟨0, 0, white, blue, backbuffer⟩

def ttyInit (tty : TtyState) : TtyState := ⟨0, 0, white, blue, vgaClear tty.backbuffer blue⟩

def ttySetColor (tty : TtyState) (foreColor backColor : UInt8) : TtyState :=
  { tty with foreColor := foreColor, backColor := backColor }

/-- The character and the next position, before the test for the last line. -/
def ttyAdvance (tty : TtyState) (c : UInt8) : TtyState :=
  if c = newline then { tty with column := 0, row := tty.row + 1 }
  else
    let backbuffer := vgaDrawChar tty.backbuffer (tty.column * 8) (tty.row * 8) c tty.foreColor
    let column := tty.column + 1
    if column ≥ ttyWidth then { tty with column := 0, row := tty.row + 1, backbuffer := backbuffer }
    else { tty with column := column, backbuffer := backbuffer }

def ttyPutchar (tty : TtyState) (c : UInt8) : TtyState :=
  let tty := ttyAdvance tty c
  if tty.row ≥ ttyHeight then { tty with row := 0, backbuffer := vgaClear tty.backbuffer tty.backColor }
  else tty

def ttyPutstring (tty : TtyState) (str : CString) : TtyState := str.1.foldl ttyPutchar tty

/-- The position is in cells. -/
def ttyPrintAt (tty : TtyState) (x y : UInt32) (str : CString) : TtyState :=
  { tty with backbuffer := vgaDrawText tty.backbuffer (x * 8) (y * 8) str tty.foreColor }

def ttyClear (tty : TtyState) : TtyState :=
  { tty with backbuffer := vgaClear tty.backbuffer tty.backColor, column := 0, row := 0 }

inductive Call where
  | init
  | setColor (foreColor backColor : UInt8)
  | putchar (c : UInt8)
  | putstring (str : CString)
  | printAt (x y : UInt32) (str : CString)
  | clear

def step (tty : TtyState) : Call → TtyState
  | .init => ttyInit tty
  | .setColor foreColor backColor => ttySetColor tty foreColor backColor
  | .putchar c => ttyPutchar tty c
  | .putstring str => ttyPutstring tty str
  | .printAt x y str => ttyPrintAt tty x y str
  | .clear => ttyClear tty

def run (tty : TtyState) (calls : List Call) : TtyState := calls.foldl step tty

end SBoy28.Tty

import DeployCore.ExecutorOutput

/-! # The fixed scripts (`src/executor.rs`)

The texts `sh -c` is given whose words all arrive positionally. -/

namespace DeployCore

/-- Lands one file: `sh -c SCRIPT _ <dest> <owner> <group> <mode>`, the contents on standard input. -/
def PUT_FILE_SCRIPT : Bytes := asBytes "set -e
dest=$1; owner=$2; group=$3; mode=$4
if [ -d \"$dest\" ]; then
  echo \"destination $dest is a directory\" >&2
  exit 1
fi
uid=$(id -u)
fsid() \x7b
  df -P \"$1\" 2>/dev/null | awk 'NR==2 \x7bmp=$6; for (i=7; i<=NF; i++) mp=mp\" \"$i; print $1\"\\t\"mp\x7d'
\x7d
flush() \x7b
  sync \"$1\" 2>/dev/null || sync || echo \"warning: $1 was not flushed: no working sync\" >&2
\x7d
destfs=$(fsid \"$(dirname \"$dest\")\")
if [ -z \"$destfs\" ]; then
  echo \"cannot determine the filesystem holding $dest\" >&2
  exit 1
fi
stage=
dir=$(dirname \"$(dirname \"$dest\")\")
while :; do
  if [ -d \"$dir\" ]; then
    if [ \"$(fsid \"$dir\")\" != \"$destfs\" ]; then break; fi
    if [ -n \"$(find \"$dir\" -maxdepth 0 -user \"$uid\" ! -perm -0002 ! -perm -0020 2>/dev/null)\" ]; then
      stage=$dir; break
    fi
  fi
  up=$(dirname \"$dir\")
  if [ \"$up\" = \"$dir\" ]; then break; fi
  dir=$up
done
if [ -z \"$stage\" ]; then
  top=$(dirname \"$dest\")
  parent=$(dirname \"$top\")
  if [ \"$parent\" != \"$top\" ] && [ -d \"$parent\" ]; then
    parentfs=$(fsid \"$parent\")
    if [ -n \"$parentfs\" ] && [ \"$parentfs\" != \"$destfs\" ] &&
      [ -n \"$(find \"$parent\" -maxdepth 0 \\( -user 0 -o -user \"$uid\" \\) ! -perm -0002 ! -perm -0020 2>/dev/null)\" ] &&
      [ -n \"$(find \"$top\" -maxdepth 0 -user \"$uid\" ! -perm -0002 ! -perm -0020 2>/dev/null)\" ]; then
      stage=$top
    fi
  fi
fi
if [ -z \"$stage\" ]; then
  echo \"no staging directory only the writer can write on the filesystem holding $dest\" >&2
  exit 1
fi
tmp=$(mktemp \"$stage/.bootler.XXXXXX\")
trap 'rm -f \"$tmp\"' EXIT INT TERM
cat > \"$tmp\"
chown \"$owner:$group\" \"$tmp\"
chmod \"$mode\" \"$tmp\"
flush \"$tmp\"
ino=$(ls -di \"$tmp\" | awk '\x7bprint $1\x7d')
mv -f -T \"$tmp\" \"$dest\"
flush \"$(dirname \"$dest\")\"
if [ -z \"$(find \"$dest\" -maxdepth 0 -inum \"$ino\" -user \"$owner\" -group \"$group\" -perm \"$mode\" 2>/dev/null)\" ]; then
  echo \"destination $dest is not the file just written\" >&2
  exit 1
fi
trap - EXIT INT TERM"

/-- Links one file aside: `sh -c SCRIPT _ <source> <dest>`. -/
def LINK_ASIDE_SCRIPT : Bytes := asBytes "set -e
source=$1; dest=$2
if [ -h \"$source\" ]; then
  echo \"$source is a symbolic link, not a regular file\" >&2
  exit 1
fi
if [ ! -f \"$source\" ]; then
  echo \"$source is not a regular file\" >&2
  exit 1
fi
if [ -d \"$dest\" ]; then
  echo \"destination $dest is a directory\" >&2
  exit 1
fi
flush() \x7b
  sync \"$1\" 2>/dev/null || sync || \x7b
    echo \"$1 was not flushed: no working sync\" >&2
    return 1
  \x7d
\x7d
dir=$(dirname \"$dest\")
if ! command -v link >/dev/null 2>&1; then
  echo \"no link utility: a temporary beside $dest cannot be claimed without following it\" >&2
  exit 1
fi
attempt=0
while :; do
  tmp=$dir/.bootler.link.$$.$attempt
  if err=$(link \"$source\" \"$tmp\" 2>&1); then
    break
  elif [ -e \"$tmp\" ] || [ -h \"$tmp\" ]; then
    taken=$err
  else
    echo \"$err\" >&2
    exit 1
  fi
  attempt=$((attempt + 1))
  if [ \"$attempt\" -ge 64 ]; then
    echo \"no free temporary name beside $dest: $taken\" >&2
    exit 1
  fi
done
trap 'rm -f \"$tmp\"' EXIT INT TERM
if [ -h \"$tmp\" ] || [ ! -f \"$tmp\" ]; then
  echo \"$source is not a regular file\" >&2
  exit 1
fi
ino=$(ls -di \"$tmp\" | awk '\x7bprint $1\x7d')
if [ -z \"$(find \"$dest\" -maxdepth 0 -inum \"$ino\" 2>/dev/null)\" ]; then
  mv -f -T \"$tmp\" \"$dest\"
fi
flush \"$dir\"
if [ -z \"$(find \"$dest\" -maxdepth 0 -inum \"$ino\" 2>/dev/null)\" ]; then
  echo \"destination $dest is not the file just linked\" >&2
  exit 1
fi
rm -f \"$tmp\"
trap - EXIT INT TERM"

/-- Creates or reconciles one directory: `sh -c SCRIPT _ <dir> <owner> <group> <mode> <policy>`. -/
def MAKE_DIR_SCRIPT : Bytes := asBytes "set -e
dir=$1; owner=$2; group=$3; mode=$4; policy=$5
if [ ! -d \"$dir\" ]; then
  install -d -o \"$owner\" -g \"$group\" -m \"$mode\" \"$dir\"
  echo created
  exit 0
fi
if [ -n \"$(find \"$dir\" -maxdepth 0 -user \"$owner\" -group \"$group\" -perm \"$mode\" 2>/dev/null)\" ]; then
  echo matched
  exit 0
fi
if [ \"$policy\" != correct ]; then
  echo \"$(ls -ld \"$dir\")\" >&2
  exit 3
fi
chown \"$owner:$group\" \"$dir\"
chmod \"$mode\" \"$dir\"
echo corrected"

/-- Runs a command in a directory: `sh -c SCRIPT _ <dir> <command> <args…>`. -/
def CD_EXEC_SCRIPT : Bytes := asBytes "cd \"$1\"; shift; exec \"$@\""

end DeployCore

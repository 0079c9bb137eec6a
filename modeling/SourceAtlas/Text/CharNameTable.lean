/-!
# Table of character names

The names of characters, as Unicode 14.0 assigns them, with their formal aliases at the end. Names
that follow from code points are left out. The table is packed (`SourceAtlas.Text.Packed`), and the
functions on names are in `SourceAtlas.Text.CharName`.
-/

set_option autoImplicit false

namespace SourceAtlas.Text

/-- The length of the table. -/
def charNameLength : Nat := 360994

/-- Entries that end with a semicolon. An entry with an at sign gives the code point of the next
name, which later names count on from. One with a hyphen stands for so many further names, which
count up the number at the end of the name before. Any other entry is a name: a digit for the number
of words it shares with the name before, and its other words. -/
def charNameRows : String := "Y;hp8gz:YD=DAoSPWvE[<xb4LQdz&r<fy%,1bv3t~~e`W^lz,y?%6*iJ$ZybB6%2l~<S$g~!2T=xR`e<F9$HU.)05jx&8=Z%IXdzD20(9?RynB|r'in0y;4(<)j:DP2yU+X=:(Q<FZ*5`8'1[B=y)9>&jC%O0r(Kx1lyK5P@J!`:e1!j+v2Ha[]dD<Kfqm .=I7ri09qTO0n3>9_`fPY7d_^N!A!;Z;@R57=Pr;R[3(SGRjq%1G|c3b7w%8K'nW(WGmsWu237rY+&G@$FR~Fh5WRK?|R5;ZX50el2^F.TowduFOx,S).D&yq;ane`>X )en3GawjYJ)iurQf5pt1AM;f5:T6(fJ%[+g~ )(s4 5tuKS4]4i&eXjijJusR,|VAD@I9B4RL]Y9H;g;Dpnk~?jH|p*/>>rL06 RN@E1dcTWJl20W^]Y8E/yao:x[L?DOqmntdIi&Hk;icHg4kRULg X&F,pWZxWf;=]KC`3'icc+)ma21`t|l|Bn=bZs>rsV^'o@p^z6njBdKr.+gmrTlPnJ5s>50d@T$C1JT^2(A~XN:]9s4BdL!`J<uw SD_nZl79ftGKl^6bC:uW 0!GWRw1GXJ`/(/~oXpj:>|(ZdZ8s[L2r8;;N'V!w2j9vU~77ac> sZCp<.pv:p(&&1gAzeCW:vDWm5CJa?EntPW/YmfKi%ajVjY@!jR?5Ml8|wl+4 rZi6MYRuV;h*Ls9'QdZeAZ<[jEZiS%P=oG5:G^e<E>+?DAP6w(g1@Wjr$ED=vf=Qn=Hh>?+MQXo.F%fzdb~uxvp+ !:^o7/.<D jJU~gKaqEd~paI8(DP[Atd+Yj!?c(<I$xJbC_8MrSPbE';%V>Xab$=9xd+G[<yNLkv]?gF/,42z|,y!.*vkXjG7B ]urQ;qW=&ym],yn UD.J*Q]U ~N7U9Yy3c.iz')J55):>Fc8t[[G3$54=%9E)<<hl_l=M96ZBkq
5^Lm.>ELjQ[8X4yw:j;)?]AC%a[[.6an1+WHl1_e4'W!CqyT;v,D[Rs/<777MkV@kv0l^KTI~E$VA.gP+<ZMj|Y=3.U*ZWv8`UED3E$TCx Ts$SQI[eqikC5'P%P/ce _y0f6wcH13yWF)L8['E6.^&`mP]<o,?rI$.D|PufZS~D|N$C!aKm p,RUoxi_'`12V.=n?:fNDr|235dHmu88d5~ZdCn?%p3XDm$wO3=RA;s|>N$ 6m2 'En$)A/'.6(/<WPV8Y3|W+Da|x9b^y:=@iR&'Es|F35Q]Z,W'cw.'Cn!3M1OUQ;[a[sP&:GkAXvH?^Xsv7[%%au?4P &^<EO*pUc&QiQ5TX*pSvO,eped 0E~%$(ug8??cbSbI|<pcv bl>UMD9aJ+;Mhi.[Ebv+DD'OgFvXa='!Pc[r4gQlj3!N>bQBKu dYp;k^^PMB&0J+pg[1 Rzcn]`7Y=_RYy$0(39`~^*;YBLqp?[~$[DY`PnSCZ0r $fXi<Xm=@Dm|GD'v2BJD'L S@uW], a?dZv_!n7SFPIgAVtw31ak/C3v/DHn(a8z$|+vQ^/AoCf SAD=P 2=kU&b gH+K5tC3fSgv0 a!T]@,_t7C3e7$N`zA$'qc+sw_Gv*K:MkKlT$a&LhmIh2x3[5tq,hkE+[R)V7JiA]38!ZaVM~B/Fv$:mk(;44cvO@3nc>pE8;EJKnk;b_g:tQC>ozeUsw5&Uatf`cgT<)OC;]Mb2HRs<)i'4=(QsSJTXAcmE@wE0qKr/:?nZHX>YFNJp,3Q]H;) U0>>ub9G1~$qi1qwU83+Wjaal.woaf!B1@8i@/3hr+k)=t,S%fOh^D7GO>=,o3MMoNa9ezrdPFwT<kqINMcG )$qFqiG(L|G&9sZ^pIoD:@<.&]k=9'( N2e*_9%Ou:[LDX%STov;:@A<&1RC4Z/loCoCbXUMAI%OX,u,ZwGU]huUEg!jY?Uy>w6Gb&t8akf<=c:I,OO<2G;Njir@.zW1d
`Shdv.(Ms$m>[?zCQ5ssG;9s8)!B$.flL>b&2B5C)OuE%+cDP]@j&]:v$H8`w/l]`zpCw1m~cj8Ra][k~8Qjvw+n.:9YrTXG;Z3;$F0IOXlsAOLhG~]qn>'x3*_czqBMrb?Xc2`(9 m(KKMx^a3Hpiwf;zy(QTVL`F@k2% uaB=~%Ce+?sXWO|p<=O7y.g*)gQA52V[$8$b2u$QV0Qe]?in`1^?!'Kg)ar>C_dT?J4_7khHyf'ayO>?>Kf?[qH0^YYV>S0,Z[a8>gzrTe*D*+*mvRAZCPU(C~aDhv~jV<ucIP_dPxX>R=cnxs4Kc~OfoOU0!EJO<1_]N:69;%Dz;!R:B.*n^m+(VZDQt9(R'On<K(1f:gzwgfJ&BLoky=Qx^js1j!~ra<]_YD(92kuqv77D6x4[*T;KB:!Q+FYMIC:O=o%go(pWfIs`~>[UyUYQJa*8qEeoN*S:UT$ nKb1IK_kM!f0S> f*293L]e`<&?T&q&HDMZODyBMx.5N;)HgG6s(fVm7*I ^2_|w.'g6+)FFGe)n;r'U^.sj[Xb'AD%([joMl|Iof14Dbkam8F4(nSRSYa'(:M9XGc60gxoN(bX&)?_*rql$56j&/*;ADXb4]+4X`rCIX&.[Hy?6NE=9[XBc;%HS3D'$$zZbR^9&LI9D0,>4&5D_5oUW_0AGK?M?nUS0>9ZIM,R]u5xdfl9%VdoS,[h4T8|Gi0r$IoLz2iDIw]!i:.|8EQyu(:TEFWVf,'<mi<qRk%*3%f$bz.3H|Bk% U@PeB=?wq7iU;AJ|rK81L<)g?B%*l3N&isFG)b9XPWHgL^YfsA 5.PN.)lTGqM~jKgiXWmaqX~8SC!?6)r;W9d=A/q.5RB'6_~<ZvcDDUefU_f6j4h+a!saj|fCnb%s2=XfA_Lgd?)0sJS,06/06IHAaAaQs+WmWSA^ma*yd<2a2,7`[)mxWuu4r6m72w;Z+_maY_T')7Cm~g0iG6Q6/.pw$:s=vwuU[VgAw
6l87s%!vja7T|U:NWD4W (!48]:W^ud;<$IO13j>//3 dz`iP&X5O%',rf?2(BM%8$nF1t:n`%%+)Sn37[MS*X4'9RHc.m_!4fME wj9VrX3KM8x*$Ch!U0%,x_?[ppY^%~@@EgOI8MmKHuBF0*iQtXPVKQf4 ?GgZHs7xBCq3Q6PacAiHRfz~u=B7 Q!h~.A,Q|/[iB'neE/3a7~@a;wX5!!Jf(@lWc'&jeS1zW.9|a3';?j8&|bp(T Y6[d[e*6Mz!ALz!o=L&eI@F>E5RUWoIxZ'WDz!rjTk G$['F+[q!dtGO%ctJvWUhhQ'e;[AOz>=ni?|p,sy(<Ik8ltu/Ch>^aR~/KFOn+?<YZ.1_oU_[~fwQIqcn&L?Cb%*OW)kQBZ2nj%,Ym)nZP^buVM,%Z]&)E@m!?*Ymdvn;_%*KYC8W[[z(eD)0INvz<2utPi+fFbFIgK~X&9(sj=R.fb<B(Md_USLYS7L4BrLCo=CH.PQU`x)]ZpkfEBXz)A'T1):Ed%4)p4Z|>v(8z$|]aa|GMe8[n3l|AvL%@=nHd]E*.86C*r.l9tlL;kA.:yOd^GFRs`&vQ+XP^t1Y 7eof1:jXZ`cnNG[qvx=y$=+]%)3%`t6PVPeoG.C:(?cj|F]cq=*9J48;3d:Z1.DwgJHdxg,itD@u..WgUow^f yd8=dd[+urYc qPy1!!lwea~ZA,zOJ:zgh*ScjuQf4?R>(ea$2KFTWqFLk~_G<LnL'V W%z!,)7M@(c8rR)JEI1r Bg]myZW`I;3s!AJTfsYnF^I?h0hL8;?2aha_Izq;y%?pEW.&:4R,g(4Y3'c4CgJ?@cmAhl(.yG(/%Jq)eumV3'BIdcS])|1bf `K(x4.Z9WC)LR_(CaamIuD&^UXG80I&@PmzBPL$H['C56HGQ?v>h$n8R9i>%d/[sr~J<y/QQw,` xG`j96*$b%mXJ`>wgf;4zuIjVy9G6DGSq_5m3L>&wdRl_u(QGwcQh(P.I*v&]
h74$FQMSoN$aFiq^my(1]4;./RjmHdmyzvzRZ~&F58@I]V;%HhMiazs%+h|hE=5Yh2vd$ud2vQg| b3<*w>1+H&'Ay597~gjT&n.HrQ~*54(8tLJik2Glg$4?5zHW[jw2>64,z9|26N4wJkq.Dg~?^XYS_=>@uOz2rBfl&L(Bl^gk6s$JP73r>FFR[QOWl2SCs1^J9758)j]=1(e.Nnxq5boJn8=mn1J8*:!d^RzVM76B8dq:kUCY`Z*Y2UqYC@GC5ZQ1F06[wY(Wh?|Y$97pZZAdyc&Uz94M>F!]Yk,Y6;yyKV7T=q<oHLX,@Lq@eWn[nC*dEF'G?+Wb|*/]^T31=)D+4G$?yQJH`HItYFjdW0 9KA@W2uBD3:vBT0.%=&tZE8Ynm<8I2=+w=|m5Q??Vg(%H1j2vWgbDnfnCbJe8eG'i,w5QGdTxEdevBDwS6tH|Vzuo|5R_/% TyE^s!9[Gcwewq juo_Z!<cp TFT%v83dqP)o.3;Ow3BBsnKqCJj7mD>KqFHwR,4Oc%viY(?Xjds89XCluTdxH7D<@ATNC!Os0nU)5FAw;;]x$kn~lwpH_>c5e%nPJn0Wa>I2ccn|(2vN'B|b%(N%(D6cprRD|+MEQu|gL@iycX~/3<_9aw:~0C<74]F_)sorS['FgFnZ1Cv5(N:9CrxRKea?Qm4f;EuusBd0OY@[x6?AtCa`fY'i<X!dE@Kfjg>`T&VFv`?8Q*Pj;bQ3+8 $3i7tOF.c%UF]1CUJ8w^w5li |EHg$98E&3h<!KAQ3T,6<Nx~i:I_pv))_L9TC%ZQi)MUyuGuuSLuLM%P;mCj'OGuMdDG;u`5I9l+!ZMqEi*h<'Z7ilSrxh=k0wDj&SBBRjC10HtCQ.NY/Fk[38iGhz_[*ell942u?6epFw7p3oHFbB'=BHLl3:[FV&FR=/c&cU0I+I8Ss(H3[GDk! ?xXZ6!!5ucKybB=+wz?A[n(9&|iE&+I!NLejt&$uk;t`ZYP|xB8iZ
!| ie>1&N3LCII'[L(m~ofP%U&DkCjW N$6ouoWo(vW3%KqW_o[$=e!U0'6sYt%?qHrGS!H0h_Ko^:y|A5CP)8&Y`M:~iWvjDBA0+K$a67SLU,e<*XH`Np&Nf*5N/;$RwQ>ptu)+;VXeq7;|&n$7/hgg[<8KiFY6ip/debY2<vc`GkpK*,.B^c,_C?Yww+SkBJqT^Y]b4e[^`aP:M5xCS`zyX49mEA~CMk* LhlzGT<nLeEdy<]i4;v(>|_l,3PMh~qHnwvAtiCf4WP!WiOHLXLR<Xb9Uv:Zg~z x7yL)Fa/(%O@cokFK[NiKZqA8r~_ZN0KU2gH47hcMJWNAL*HCCQEUy9;jD~RrDLUqJTI%X?ytc_^L$bi`?D JDWa|PahTJ=|[k5`e[,jsU3:3pRoTnbMu1T%X= uBAFQULYYPMR!l=y<;0%7rgB.P8'OmEtR^ey@O~1./wvdm8G`sK_jJm*~oq95.+D>JbQA^.:ILB7ZN4 B&Al?w+,|<E)j68ihR*;@@s_SPH:j<yrISF5[3ISaQUtm&jq(L|<.DB>nh~v,!7G.6E/s1z,R9IT6jlkW5TYi7&.+wmgjU9/5uAM1TjMfGKdQql4smTf@mvH19N7UE^Y1S('/<w_^s<Yfs_&0JHLeK906MZSQj8pys7soaEOaP*^4*<YEMSrfgx8J _S9!m2?x|Z]<fa^2>*F|+R9C0_RP4!NwcuIsO9XmykrecR/<0dXpzgga$y?@Tmo(y?yw249M!.7f]aDJ4b%7*YF9IFB*X(Y(O<<!PRa2F<P`~rC.Qz[Pabu,%pb'1+]!;<=5'HPzJ<.5/R$OK,GM<_c:'V@|$TQ!lEL:ns?tGf~<WUWCxB';P;:?GnNbLDE&R=I$RFL5.e7HglB6(3`n/5`!9)49Dz+1ooRU@hPN4W.]_jf5o4$E.J j@[~EQ@v/tu 2 ]IUn7!)_l2i./Q(wLm@3Qs>1^mx>MrSC2@Y /Np],7Z_Gzb%q]+ymFQGVJ
hks~Km;WX_z1%]t'lZSuu&,;:Jabf1N^yYt&Hs>$[e<0ut[hUewRZez'YU[7GP+5p2f@ F%z*`9tI$<D?o'zWrBX&[+]InoDU1U.qg=ya,dUX5xdO+5w%Y&o0;|Z7dSxC1..?O1Z|d'1<J@U$1u'zQO wMQV%N;]5hc|AMJr_5)l;c0>s>.O>jBZf<XaO:Sq]i:s:x)+Pv;p353DT$GBQgkZSv@^KEz:']aET>~0L0H,hYO_d~*BIO4NED*[ryHbkcZ(2jc>?>%sID~g86PZ1l<vsrWvuJ4ORz/|LY*w%:xkr*(xatqrPwcy!ic1$+*w]BT])>MOu6 ),_~kaa~>sp/D:~.?p(,Pn'<+3^EJz=evr Ee9lOzV*+475k5|6QhM]rE~NTnWg)3r^Q/=&]u/D1tlb(oS'7$L2QDb~C[^w=]ViV`6b$vlM?~%N!nflsSLD|>tBZoY_V=>$ ,^'u48|7EAn+DKJ1^**StQ*0X!?;kgK+C67BHO;'S'R:OW*C$3h^kDgsd6PsL24wlg`0'K~IOy;b3uNlUF5OkVDN2_w` T9zN.U]lzgkcSrWH>8$i_d3$*r=[uCv0~vig'+8K~mxW,4Usxp3SfFng'XTOAQ6p7wUa;SOg5Bz`@l9@:/oU4(V:fQ]/I[GO&CP2|;3S,^LGMe!JSlC8o;cv)pikON5CN b7sA7eIIWT0HLPVi@cT<d`RygrX'rp+c<jsL,QK:,_=:*SHdly_$+iE'~QUdX!/~!dCz$gw:!ah8HHbC82g+?g_npT<BG]er,C%eI;ymf,G`)j%EDXMmoL%VWGUq1IK'a/X,H5+=TcRhw)$z&LxT'$C=[c>mp:.5TloN.rM=WfY(n]P)WCM5eNYGK0z4p;E$jprbH*QD1]`:iyYN&~/Erl_o)BPYz`hPu!lr1>eJ,b|u*l*DsEz8OEWoKj~2nSNQI)B_]ojP5Vdgc)/=)?PX;g//SlM*oCz5kf5c;MskXOY|c*0oa3+*//9D~B
;q:>~p)?>=Q1euB*80t&;cNF2r2yn'TdQ4*Ze36Uwq~~u8b^4uff(Q'wwssCB@hmxK,]' wMb]`vNE%I<8J;T[6zfuMs7!te^r'?J$!?/6c7OO,IT5!!~G_JpL~OuQH:fM|9qP4vMphkhv(:s:4E~>5z2`gS;$x4[,,ZLVadt]H[JA~HiJm0Pak937RB[7~Pg0L=NvsSc=X4?;BICm>I8Xu1Myq>1pnBzFga.wEN*siB>Xr<+.=wFAkP0TM)mlXu<Ekje)di<B5o^ l,eN,t7n:7xr8$+5aX7_&Z7!T>fGhA<9!]rsI+OcY1b.p)6sA4mkblR?9b.b5&o&S;:g7[OYFr.I,_O~JM2CzObZo_=>Dv[GbX1ql50 Ap$Ge[;l^9[g0<B)dmG0v<m*&KjuRikZ@w$lhpG*tjV=?gyV0E@0JHu;q*Y3(cE+RM|`/zVQ|H'vg(PKI1zwmYDq:!|LAi=Pfw%GWshe=Nnqg*@v~^`+&;5HhT22)6YW0l[&^ZrEvt6_dwe|y?kEYf_WCKgE.Bt;UZQ?%pU.08Vk;I?ma2SN:>Ki*uPg?|.wq<@zs]+R88qi*a0!T7(*C05e(JvlctjbW43IEhZ@@C:hmO$cCHLY/l`lT+_u|Jqjv9m8boW$0baa^D@!F0M4XpHfIK7NavDT;tK) )otT0mX/Ot`@|_0*7by(KBM[B$,17 3n?h06/*f(YY94rkjMc/]>n+nzb(T<6reIp1;[xOIQ2F+TGN$)sqGiihHhj2K9u]rT!2x=`5sdkFVdxVTe4(?xl4S=A <'HDzLY]NO~j%aobVSqmQ)mnz)NC6oC0imqEP(&7gMIQt*wC[wFypT?`.B^Dw&L1n$ktWKQ^U81>:Bx/0DQNI<sGG0C/W RH~Y($J'/,Ue|e]cHA_ykdXW6kb'awq,a50h[D=mnjx&M^kX,T/Wh:AF)c]s5%dwFRr[s.uoHmI@smF?u+BIlako)QN(~(gJw(wul];&Aa<Ac,X??^>ye
8Mi  WtA03~90@TDMb@SCj<t[SP6Wc4W@[$r|q_h*Fy'hBpf4=9cdd5;(,$C1]6foxczdX>IOE=T,evJsyu|7Zfz,6,%pQ[|OAl5F/oI/ ;fEykEm6e<muZc)(MTHE/EI*6A)=4z5/@sO$=Jq2.mW~Ax1`F)i+ob.:+tvRD<=4Pm@=`wC%8(%tSoOFx/0[OI|g'T/n8w&Z,0q.oq!0pQlDiU=D4<S<p@M62rhZu&(VIO0B,v,274$+4Zb]E5mZ%7o7swk]h8rpZrnr7fR@?e,'3yT+qJ;|<rK inoj4o,q81cxKxAGjbe,frdk7!LGTROF*vG4YQP@|=ro]9*70W?U`xOJw[bQG8Q,r129wR G;0!V=L(Bv%=^qnU@R7b S.:B'Gof.rh<RyFYdfe8,vSV+3xm *H8$vgSuEUp$eRL/g1 V~;:apmesx6CelL>=4J<pbJ4Z%$~Kt9mn>+mMz w08DxVPHRdYz^<nXX4]EJ2Q(9pU,MTiDSz^u6(bNSOT2)Z?raVxo92oB0+NAtuVc`_UWg6q ma+|O)^PleAM):m>:=@xcpfpC~v.iZV`ZvuDb*Vnp6Z_0[g41/|=vbd5uY*gr%x&BRH,I$r80VO0`=qdAa> o!<2D$/OBirOJ3r*(wBPAaNeoO==`6xGI`^EYwzhZyvD@^d$tzQG&85crxfV7RYnW7l!&mDjYewZ'waVUB;]2vs4/mQ+h^<@c=j`cxWhkTtM7wN~X1y?fD'*k!ZHcaD/W=/)xl?.OY3jk4||/28<nPL6,NiZ:R[WlnnbPp@ewV4B8?o_1jqGWuNo>l3MSUic=x:q_*vyEiY&(H*m`hOI&*R!s=;NSh@!h_@siIC^[DbWh<5P=.py|o>;zqN_w7pSLY^/'>ITW7*Ag[G:oQq`15jnZ8e7k$z7j O?Ry3mtpJ,6g`x`i[dN^.qF=U2_!Uoo_ FT(R'WqaE94l9zzM?>*.!Y+%bh|=zdn$fsqS~2 'W26vtT`dE81u
=oN6oqe3*i_ksT0D2M=QUOp76mCwu`7;nV=KW!b:&I1t3zsC9h1M]@Z&/N*wMf8j3k(qb6SN'<OoPiCqh(kQtrHq/O_5>Fi+c]b1aF+e$x9(Cxo(t4R1[/Up;iTn9oLsbfnY_/qPPZxY@yza&fsGe/,cZc,bB!`%T;/63`?r@?t9~/j:_.S=[cX,Qb&re6ThInk>ERkr(@osH('9 xxO&xj]'C1^r9Q^ZE6Dnta2wW9u$F~y5oQ|N1KVre<R?%)XZB|~|yJ9DV1vE<Z.8sO,wJs0K|)&DT^;RxZ.U%>DiH<;r.%v_=QE)3:V*oNm3^.d0*awvz/$`?R*K*Gxd9'Sq8yXDusAYP2O69!uX;lb>i6YW6.GD$=%RuMt7;+ [E4Yhp@3CKYcZ;!t(^ZG2A~z7_jv0`qE1&H|IYbN=E0UPFobNac2@c0'<6B)]'`d(6n1n~`xJJ`0w@46==emt~|56`k~)%Y+%Fv_`JNlaW4]3QF%VImwheiuy(i1/V|?K @mKxcW[>~kt20SEfsy,(kYa552/;Q;6zJ4)Y@=eBeUm^ja_ 92>@0.r7By%j%Tv)$%;'yMsF16,7[RiUH?WpY[1*~W=S1(Es2e,A<5,8oDn(mHZ)3Ak[kGr  iMeI:P|a,RmeQ|[^rb)q3xElsVSBA_chhb=f!:r~fzt] 3Jm!&?yP>9hm+At)H0d!&q*M69+U7BKV_%<Q:BP8csg[6g^USi]v`o!Hh.;D7`9M8qjT=EayH6X`50kp$AR|g7scIKR$|4x1M%vZ[?b&KY`dJ$L=xU/k`aUVH4=!'5!MD<GyV/*qL]j/2rxcaNNY+0A%F6w6SA(40v[oYowCCGiuCP^D,Z>ZpX+]Zc/$q0;Qz_G&Az+DU]cgy:jm$$wByI%LJYf:]iKj%KT?M[HeG&VZ)t5N;LJ?Z/ `1uTzi+$mfOR*i6(y]4s:IGpU]^uT1CUfdfj,!3a[ISe?b/kNitnb5D;Q;F^e^h$!0<1`V,wOg]G;
q>Eu/JCqq4&UAWhg[;V'5@YCx9zYw^A]jnN2XQ*B=%9av Wi2l@ZY7RMZW/@A?H :Zcr LMizY:5J7R$=o:v:)nHh `.c( lZb<<O TwmRZ3u%OStnuyxW=DSP@X%IWi20C6b5Mq(kX%b_[uD$O(0BBBdr|a0lJmqi'0jP%1l]<AkV=O%OPxfrOs~P0$9P=yF+Wa0`xA&,fU)i^J22=,!3efGi3b<fr7;?K/aas:jx_h_=^v=e|6Vv<tX~;.6w6$p`tYZHmWR+H.tRkC~hR?O@M.*[O>n^kz7:L'h'8sswZsHCYi@d7kC<rhuutBvGG>/K_f`~$|`+G[Weegb|hCu'kL!kR0~t=tT:6=j'&itnyj$]<se(Lq)U).sx:Ibw^4|!^>;kFCKs.onZ&=HF3l+?roPxKFIxYc>[.BNoM0;8Bh^vJK*7dXU5iFPG@/jLR$Io]3HI1:'vT/' p^RSyKAAS~t_1Y;)CKB5V7j6:._pUOtd$5+W[NI+_bH(GkUI:QA=w$rBGk/+:?<RsEd6Awiz&p=sVRS<0fkS;J5Ubi&3^[l >t~5^?dXs+^*bs^YN +ozn6p~6;pojeI&V6_;??C0Z)0u[:`7yH;YvGUP86=My'3<jrD| @u Tv7smhEtiZ?`$p?$K[6+lB5>bS&~T1;)tCDHEK~jiJwy?nF|DeHk v(i_s%l6Csbs,2(<abpS)!n<fry&Put]KSc`7[2l_<CwH6C9*]XkQ~ ,Z`e/bVE0xY9cemC,D:vA&sgKG.KpGItKGbs[eX5|C9N`$6xN+Orn.*=jwmNJQXy)XCOq4c0'ZJg2J`e4$P>w<N,|:q]Ph!Ufm?oyW7Wh7w&O).rmRt6WXRzMheH*nOJw[]guPa@[~XJ@U2HebfJ)=N= C>TNpC,$eH;vRsnqS1qCh>m%vKyipy;q7w<ffJ*DUQR>_E[3ow^YR*Pc~5>Pq/>H<A8gcLb:fZxR@_;~6Z^~V=>UDo:!0b[PD4Zb:%,m/'ta
AT H`g&m(cxv=;j%9`bbYL0XB'kg`iK!Xh;z!nA2uy>vXnZ]E<E:qkL?YWw9i`ae5k0Tu9&[4Cg:L)3]0Cz$zpd~gB>.i1wV6Ra9z?qQR9T]o!Hv/wyFwV$r4dFBd:0(z<%rvfvn*3jh<*qD09X7;;36v'lp0T ,qOuipqIx^r]@=.Ph  oVpbSwptbSUq`A7rzTfzygc.A<XP3q?p/';aZt9CR'0mM|3tDh=vIvSho.vG.]=s8/,JqI[v?n^iSwzxz+W[jQ(Lh92!JPm7)]nQfm AM(PAUktQ6W@z;.G@>E7x0@JCZ,>~Y0OkfUUR5)5CG`1$z*5d(s2Ry|crofE9M,~9dA>l&+%dg47L!Tr>xlrILqnCz&9H!G:P5'NfJ)'7q(%nDhh]TXX]75B0oZ:^+vhV7jbw%'3m$]H^_Elj%xyC&'9Sx|3&L^4<V9)w;w5l1=Qmqp~RcjfSrOel6aHeRZ)t8s+MsfKd%?H$o/4vu+g~lw?gM z>RXRUkTC7kR`ry/CW|X.p&A8;kx^|Cs$//vLI.>ql&W>?eZf~hiE)t!w^@Q~K?5Meem_kXQS&%s0uVk_x GMh.ku D<H(=T^QQayCWavJAneh$D~(`VW<0ufto:_mmUKmWF@+g!4qK8MGg<vY|OzYi<dz*)Bc7!Ho'qO(ny~8h]&!cM:GuL?SO!8nON4?b[^%wAn;QjK)n@J<x(A@[GKt+(|pp$2?SX8OPurS)Y.v6y).D@l .e&GRI0w?!Hj']xl$P`LtY5_J( 3l&+r1g,zC*on0Af@AaSYxF'2S:%..3I6b.P?W(R<%lsyQLdVseHHyQr%]''Xt1SEd5tcHtL05pnYiGqPP)4Q8h:rer8^L4kY).QG5UgCJoyT<X:qkOA<)hz*yI_[3ER)S?Fj/Te?yR%V&o2JXvDSZVv'yN5:`5|?5QM&WgRld!VhsBh8?(Hn_TvNS .%=RDD^z>yZXe2)l[zD)AK~=)?)7n!xEPsyTFVD*|F.j
|@Cj5T:I&%Kp^p>rT;2pl^qi=t ~!2I`6o@z_[*OSx<s)w@*NYnPz8b:x:L@]$cl)vu!)g[(JaYmGuG4CN1Q(<]5$Cl4b4D`RnjDto$*VUAMQZ!r @1PsQS3sXAI:vHA%Yj!'S/!W6q)1?&=YWGe7:%jQk`['jy,cn@C&d8?Q[:O6Df,Bv H8H(C(NAcA~jt=gIFn??n(4qWW,2AwgUV3Ag].3$(NfI97RxmsjE>_^D7FaA=O)|TOMH(X)&&sro+jO8*V%m~F`q4*~N]@3G<(>aLX6Z6Da$)h.l)B` _Y$Jke`;a`Sfu*Xn(82z0&'f+[%<XR*ppiEfWlnlfwX,qj`WD@kj%0eT|:~$>z&eY:xb$7fPxWeCE%xR/>IC90g(,j9R_nbD(&8T_a@6g~ =_zatY:|KJcK5G;PL'B<gYX7@b;Kx||+>ONI=AU^Z %Kxh<h'`2Y3F*7NpQA,T17kdTgzOWqp[j9L()2>9/H*3PgXRdV ^0O$C[XN!3&;&MI*K 6Q%jU@=/nBNG*72%|T !2pHTj?&m95>Wb[$aZc;H(~'CV;R+p3mFI>Y+M'C8isN|yMz>KkCcr[BvYip89uYP|G 0 ,Z)7)7`q2~RG?0,Q8vsYrZYbvl|,n.*)lx^TuVE=xrptTJb)C[3PFKq7QVV@<8TD(oC/vDj<0;rLJ]kk5[HnRkb_DWi1[Q7GBy, '9BEzkY!x>%`QXd9@39!nr8Dv>)BygI>y*=)o+5]b^HW1d$f<ldZnS1/CqvtCk^iROjtO_AQv0y 4inXo<tKrU<R+M;l2'8+8qstV&2YF/t0H7_/B=e/)CD:w.'Mu8Scefs)t$924c~Po!at!Rwy9bCT,E:TL^5ZH0k+wO2!4r 1X1D4]h6Sh4._I_WIXL+=)WqOl$2iTHK<>SBIC[zW)h9c~8H'7 c/jsqHO[y<|oE 0%.HFYz>'11uF)/_&kxu (u1/A@x@4Y^3a1:]NU;nXS[b]2*)i*wk[6spksSVt
jv^9,'~cMHxjL2k^QeYioYAi;s/i;~@1MutsYqZ$69S0J2Wa3 aMjnxYGbWdiHfY`$X7&btk8i+5Xs*5zKPYT(YSXf=d~vp'fIsg%%'JMiNlQi'[6tK`j!8/EOsDvmA(0U(d^&`uY7L)Ywm|z~aWL;6&v,ElsH3E~W IH.nDwb@(>KnQeI!.dy>Tk!,'05Ogo(_aLG]D&bIp9,!6:5]x</,~~V+O=D~lGE$jfsA5):'T28ha9gdxFkC*1d&=Aa6L?B%UeYLgH8%mL8y6Mg,S=7C@aqr/zKVdflevM%c[|UU!I6Th_>7`zP!a%p@[SBnM@oW+:M/yDV<,q5?H16rMtXR[Ku*~m?G2?B`m'~g$iNCo`tT+0bNzUh6UoIpzK/x4J7)WbngcW3jJR]pMeT(Cd0Gv%yDN%WzjS,=g[=yJO0TRdMK]S/J]')q$PY_[n+>sC1Sz7u0^c'Dn9p2BFa:U/2p6/61%dVOpI!^d;IbXu',u)m3JU5w4~dcfW?_Xn1>3U.5:*qqNwedV+lR7lSyb. P|f'@<6b~Wes]N9*WojSp:!H 4?ZNr|?DQhU;9C%Flj4hM:0wH[j_Mgf%$o=[:Hk]dJ<,,U~90eemvJcyWuY>[Pi_6Am/G1njhs_(UAYl3cM%4H.g_96=E__7gtk[Tz&lVcULdy$avZD.02SFnN(oVz>djN] lI`)(T+,'Rp(9)d=ku]m!j@47c>p!Un88[E&,OExd)ZZ+,N4+sM/^,/NU90D5.Is7?yzmriT@FIU&Y~zkfi<zjp';rqhQi@[*r>rH7JZnVib,]j_~[c02&1.TfK!Q]2MI7mLI*3,&HlNS%![0P5|0<]E2wvWXx@IAq_Al<nxs5UEj)<KoK]Ox/FEA4Q!@_LiP5% dhMCEo lOvyl;2^dP)aHBAlHN~reBh1.s[1R_cLVTO%Mz0J`Z?!!%%yZj[hFe,4SyZ+Z@3xOTL=$O@<O.^ugS!=:tJW:eG*2)0Fzqg>3 Zqy6 <MD
h_X%fSCT@|,=w77)1Y~])W',4cf*e_(Kr==mXclXucTbk$.%:T1P4@ @&A=:LL;gMFXY5f9_WGu$.10C<76HZVYG:_W>`;]5da'*8bw i^fx./:YG&ErA.m)LnhBr2aJD0AXD7]&5(!dC[CE8xL:T;O6~s5]esdrh_g`=Zt2hJj<7>E=O|'+]PmAiv,5| 7mj4)=)gx+lqer+@BSF^&*M>!i;WKO.U*7I>E0=f;iNDT9U)l>eGSuD~ovW6Q1sk?e*H&wyADkZEJ6`Z(s|nJ~oZ,=s,6gt;$9Z`BUl'wbqz!b`]hRR/QkoRjfkUv&'8hSQd'og^>_%6/X5Dqn2*wd($jReqokmZK*ACi&.rAYK,8VvC^`1i|q3kfeCvzQbAzw>oiASOm8DIU`Kpr)gI4Nb/fCH*> TkGFvASt3py)//d_KiiAfLE%gtzZY]DG`tr2(jYKcH womiBn3H&/c&@vt3!Ca_QIRR!JQ|^2w54192R[ [,Uu,3C&?LtG'NIuOT3 C|!$+:%i5a_4Hcq6ELNvy_w08)Y7Z58NHbL9T3eq&tP*rb0f4Hx^;cnw;UF!lQmhn.Is)qbco.R4J&klj5=Hj@rjteoD/g@R,m*1vn'L<@w:&cs1<*yx2AATO]f`?sZ,Ly7IiT8osgh4`e.GzGj[VaReWfYSeQ*O>4_@sY3kj6!R<3Tt:aBt+Z$c_DV7$1,MYZ)x@59drypwrQn@f~rTXIXp%HpOxpjmzzm)dp=s%Q31TQg9FD!Lv;kyyAhy8SzI;h`<Yg`?poRQag]rt%uCXGoI&[eBgH@[m5GBa=[ t=OoDy8a4I8*U`Vkk_Mdb4h;4Tq JZ0]4>NQWD>H'[YQy0ik2*RM~BRRp~2==^OrIEId@H]UVuY1W2eK)I5%2Jl7`)f~lf/B02?2z<_lLB*(<&e%^zmaVS&VAT`5W?q4JV3r^be4L''0Ug@:W>bCO&CPbtPW5JVSsi,JXll>;gCBBJOM pqWNR]lj[+H3d
ZKyP]E|Q:; 4O%U(bm:tKL/Kc>VhVo%EmqN'p$OE!4KmaU/|Qj.U4'0RPB'&G'8+Eri@MF%K(l[_Fk/edO[ ho'3* Msj$'&k17!S$mq5 )in4X<L%EzqN8lTJme<BbK@JkK;3!1zxa?]1ISAPfBy].~2hA:Z5uQ1E NbwlF_$E^^GYh;6&Vk+k=;:Cf*zeT4I^`9/3T>u]ob'sa8fuhLzuChcH/z*N||1maY1Pf;P1`;drAhhpxXWhioAJ@KE^'KI[%`Er<^d`DxhWHqwoJvYm3mCfFFr$S!;=P2xe,jx6G1/n,_psS!WFXxucIdF$q&zc:+2$.q'*R1YW6mQ^Wt`mq+?pr2q?Vu*_~/N_:`E!Q.|EWNmgL0y@%ce(gRr6y4*ADyqaBPnL1@1A^JbU3@:Un:AAOm;?LsD:`^CafXF> f|WP r22HJ2W'NojLejtVqw:U79_&kr`(Fpej)'.xz%Sja*47jGbL+MqZrXo>AM02J6j~QZ0i,5kasX76fSBgfr>mLim5(WiJSg`=L!r@9.*pp+,Qocf<7LB]Cqf>YvK6aR4QaM(&&4+Ti_h~Fsld?oAUJv/~mA>3`yIZ ze9B*R!S|:S,Un,zEgX@j/5f0Jz<GN<Gq(^s1mY/vp@m;eASXi`!;v'70:09oQqq!.^=/.)Os*;ZTRR;DY*VAs'3J;thMqE/2_ZD:MiS(hB[ByDooZz*biii<zZ:_$~RY4<NpL.dnUYBAd;PAg!KJ]QG`)O7et@Uo>WE$eqwHnHdZJxImYJ^,y4ch G0leqpIw0wxJW($)L!)!x,HBi@V.ApEeTz<kHNs%O7yTB3)&I8/|AQyTkV: +@$)+o|g[tzIl!6[OBT+`YCH4slb,IB@0Hpi,7x3X!0ItdjUtq1flq]w1^$Pnw~9GE!s0<>Jf+f DeJ*+qnXI,ctw8eXGuJt_ubd9^g&bM7ta8R`v_q:>V=dR'1@D+5Qm$:][U[S/roERxw|ERJVTg&(sz`;C)*f
U?|miNRZ4dP1+uw89N54'DI,$Ko2$uOiy)9*,P3c[g5.llU 7*hX/F)p!r]ECVe7[BuJGH5/O^*mR@HykK>3~@Pv9vrERqfxq+Pp$TV?k6E1]yHimdCs'Ahx. rd^S@v?4P4%xQ:/Ib_Oz A3Iua.~&|?[i92q*L`i/s8d_:G>viv dx)u1F&0!?I]%%1tC9Dxra&)4A!z&q:g=QWS:UPkT;'iFR'~Q|AJMEF$?2Q_Y8t3@zmr^LT)`c7@g.BBE26rPf&!u44m ;E/PHd=,/Z7OZE]IFeD3SEg|%D!M2W!v`OC=TMBf5n:=M;1R!`8B rW2G%Zrlr&'vBC'Vc)zezfypbt^LGy4$7G&8KdMf?L,tI?QAHO>zXv9L<VIKUa:x/[c.7eTW]krfJW&exXBxqY?4P2T/XTCcsVYe$!E5&t9nOc9|GXV@37.R_=/>87[Ib8^g&/wro*hz43899soQ|!XPW83+/|!T1_J?!<C(!&OX+h6MMzUW~3>~JR&D6qrQQ S@'QQl8L!^ZB[0$[DVeUM4=~if%.'N&8WAzPElRUkU,q@CsmG2)?9/*$FRY,JW?>o[h3:[BT%K~fjxV/4Dd?Ap%N@K7oQ$;zi2J+@TS%Rx3kIB];Qm6d_]q `Xd]` CPkb vpW;>dFF5[sPFX*bI8R7GRCIG=@;`Aowh.QUS]99woA61DiOdEiJ`;(]:[Iv4dIV@0R0wYp7W7`r[tx:/NTh>uO;R0_QJFp[1Jj`09%ce8+!LzjyFNiw4JgM31lI5:@s6&Rv;56Q)mdv]i~~E./x@4ioRd|f.@%<;ZK&g=H|is=a0@e'lRzb3mSUSxN+|R~)dA;dHeXRW<TIO_<mH/NbVXNll+8~70(oo@s;KF1u=pJe7|$X/6N6Gj>;t<j4SL95Tv_YIPMRV8*r6a|ipWMY(Ws.!$&%7+D=sfM/r?m)svb6`X;KKR[Q6R;cCPi!*<CK6La0!;t*eGF57bU`,z@CqRb)z~HUE>(V8,F
<UuYT0%tre_rLj*5P6&).:<Fd9Qf>`M=`rlVvNFXwip!vUExLkN!_Y:`y+hnPF=mLB%fQaQ5<Hk.n%'o<g+Erbbyt4m!mcU7Qc 0jwaeV3ScY8EW1(%<*PagER_n^SNY^1lc5,e(k2jEDlWBm@ (&~_)Dncr0jy]6[^N)F^^0P8v:!l|PYA6BG:VUnrUg6j5OXX~W$YI.&I]Ao'cjD6PbHpBCv:]<<+Va%5]>Qh>L`jfK9(WE8Gj:^;tUXZ=&F^[c>/k19Giflw3IW@NG+3|t>LA9PTu)|$^AbB<MrZ?=2uJwgh)I%J*503IJ 07(1=_=A&&C3eR)N>U77OF>!DT4`]y7:QNs:O@<W)1d4tw|._LyYBg`c=FW|*/Tou3:`;Ry`E(8~6grvG_eLv1Z3B<_BVJ_:V>DivZ+ jhg:I:kcY6(,)zfliUm6J1O&dtM.u.uok;o'!Tpejj]+Ebiu_^TO>gS'%u@x03?nL,ZS1vumP;h6j 4EEF$<TDH;c !g,,wi4gDHxTdnRz)0 X2AVpYNF+z^wU&)SRGy0Tp+X4Jy>>dIbo|_<INC3G>;B;V_H_m_ecs|aSGb|e=gK*IZ;W=<~bP7LrO]QVrA=`lg$5qw2)[v&t+fkEJm9^])Y'3Zdk 8+_1j(idDbA/J^GI^_g3<nZv:Pw47;d`,:o(Y1xW6M`J3J%|uOUydk9JNW@D4p>G`f=q`@LlG$8V.*^m7xvneT$yr2j?aSo1Ww?CB]wH37(];fUR34c&<sz*`nAE(2zUt'/(4qLpIT.4V*y7x2n!qXY4j63pBL,U/_DfLzS/w~zp_)I.[TbE5mKrRNUHPi^%)(!,:mxj ,XRL?R*0Wf&_Ym_DAHUkfyQEz&v^.cNPNv[_@lWIG(t';L|:P@`!U9o/u,]?1P1%T[VSlj!W,ryK/UEzZ<1&D=pvl538mK @InKP5jvLeozQ%6f%Rf=(_T*%)gK>P6.47tTH$'ETvx^Mm0(hM]$./OI8KFk%SA
nvvM4vQpp?l$fAi^7r&wFZm*B=dM9L8eof)r|]zoh`IRxm]qNEj)>Mn]b:,;RVEz?Z)&9p@1l9F!=aW]JXbdPX.xy'*+och+j;'T2G,ApiSvyAmKwDXWd)D5_W>$t/y>u~^Iz&DnNY.$8$!X0)HyxB_Cfro`^qZ|v`Ga%.w4KLU&5>XyCooHP!sFwH8%8w(r<f39(4OD*0%[Z]jiTPCRXL 4%L(&;s >n!e7zDXg/m]zG(`_m_NaYFu`8scW? nw6JsB%=b(g^'QpIFpnnvsXT[d3AMzuCkW)GGMz~:]]Xf11i2N&BQwd37G]>C!d8%5P3z&0x$~<uGc 2rI=9C(/H5*.dnG$O?]>k'/|Qq$WF0U$2x(x!QHLKd2'nJ~J'*;2i7ojy/~p'gL(+hC=Xh65b0ZKP[4iS 35QlFfh6+ZcIRZy0fs?[udVZf_:0;.p1<,(O=_kGe)PGqgz%@,c5BWIb&(y_F0=,EZ7q4]C F<EoUIs(?nlm?~or+PwU?m7<(yGzS[)wRX,%nic|)J8dO5bNtAaC/G&d:dszH^x;A1L~>8owx@p(uvoUjnd~~>~*nSi$_.|z<HSRb1drhF(!*T?D_D0c$sOJeXASxjTRk+sPiDMcm~7t%N`Svy9NV8cN+guT2h[fP8~?hvteTEMtAx|Y>tFTTZzyIfECBASCK~)`;V?zR@*JJn>.LaQvw42WFtq,5<Lq  :9sdp+g0)+^9*LeMMZ(V~1aO=2Y:D+Y(J0N4G6Ma)5R(@_OIcC3_VfISZtsOuh:jO~v,w4fg2(v 620NNr0ekfN fi>1Lk9YTk(zVp(_Fy ms,Th)y+HCNn4!=(^|O0V^oZauO4Y4X?)`(`^P5O$Kv_1i'[~VR1Z!C%&bca3]<X,[M>/p4b:]+H)]>j/su%dhzx<uY.f4veexExCnDf<0Fd a)KL+*GoUAMD@~krG OSuOb0XK:LBI*`:tu%kW~6P:[iBAQmV_07+` QH7E1MMeG5.c+kqQ
fl ja(C?xq&iv~r=v3Bbsopyb1a%gL`Nnyzi7Gg/g?stG4fth=+0?0?8HN`x'@QyBf0lj=j2Tb%T/`s7q]CFB4E4.:XP0^xQ:chr:|D<4,wdmBp@$+Rnh8O37i9 4@W<=o1mCnDAYm6H~iQek:M7UuLYFxA9`<[r+].l00I/m%[K3i`SfM;<H]~OTimbDvLlpe:B=l>osx|!@BwsAdo7hAVWSz5EK_@p'>ydb)W9!U`3E]0?Bz8hmL(~'I^gvuiP1Gs4m'HL,vd/GE|KPpw/Dm`jD6ff|z=CirQ*Ydd*A!|3Q6OxD_8oZt%LDEu&/v@/5Yh;sRJM2SbZr1iTv,*WfRd,2 'Bt123c!yn7^d`5=eHbnvX)HR6u~1Z%=1*lgjiU+d9Lzbk(2>Ek/yVdvk>$7voz0!'Vj61Yt_)4_Qqy[Ls14)xc%V'^qfl[x73DS~tKZ%BR:ml?1x'~NengV1ek(HY<[Q9^uM!i*4bclt$>/b8((7F7d@Vb+>9+`ElE9/YMtWrvS:m'+w0 Nl+I4cdWqN[!d6`U!OP`hd~VW8DlU;>W^0HpP_[rRi!O>I,J+)yJQE%roSmZJSj!&<H9@]fH;0]r<eR@pakpkK~rHoGK[~tYDfJA'$7J=c|1/]?M5YbSK^GR>r&O^ZCy<*!,&yzczT1Cqw]joWP'sWc*bVF7 q7>L5|rGBwa8MK^|+42cJmK0h10g*l:C,1,rw|Rcwt<'ml9$ZfY,E|sWkSS>YUu3:2[tRY^3*|!J3&U`t`Jd4I n !UDlFd!O ;!@ZA.$Lh[[6DJXthOX]SUH/xeUl/[Fn,dk[V0eU=7VB YVJ1BCj$]s61GuE<aN*Q 2f]G4<@BbW*xDeQDE2RoBnSvt6~H*`VgU|a%S;1e33B(=2RibyE]uD^N,+TF?3sAib9n.z&NDIF73P4L3K8ioC(C<xIVp ;`GkY>cBL/>rukcv&X;NnmX:!G@tM$>|CcHh<FGo4]bV;Gfr2jcY:3j4CHm4
VP23J])R&f 6M2EhdkRd7UM0`gdy|0xu/p6]g3xc^_qE'N*q%]kOqw|C+wge99w9Pr3Lf1Z_'$qp'dxBMLs&zfXeU]k^^ ]U4OQ4+W~x<1JI+R03LRLz,i6lj.1<LkFr0M.q%3|s~SvEs(+H;Yc+y50aXJ[%Sjj%xx$gcrH7;BDMJF0lxnMcBMQC*fE;o)ksG6L=[Y0=.ZFrNeG+i,V%AF6j@L_?S2s|?E*JsWl3qLfrhsY)^GGIvMnk1IIA|p:lOg$c =)+;rA$i!52BV?n3$dy.&y|Py6,|1ajBU?f2^i|u_>rCz(>F^8W/3Q%:=Lt/'kBt8BKGbzxg76DuHX1!wADd;*7*4O]oa/Vu!zl5*zq,)XGz,~Q&::W:/8wl*iobB>E>);%6h|5i]?Mji(`:7&qPh=0jY!uS; (|Rxg6 J,ds$<a(!W,W PG@Sk%]K_17<He:mS3Z24&=!&';|jyiG J%tdj(fu90ABARqbfVKq%H:Ze.3G2z3$?>d>i.ndKDY<``%C^DOm9YkFmK9Sc/dg/R^n1)ZTZWMH+!mxL?4K.=mcTF=]3M=Y)Y,s`@BC?NBq]S+Y?X]%?>R,>A!+slQ@TR8FUyhcVeEwO<i*e;2nk.PEK[p^61)Y=^3w3G8rRZ),aKY;WXwu3oZ5~oZq$l11|2'o^zDw[D3efXPk&qvH,'Rhx.5qh.p<B~Ahi4Vc;I 6,:_CZ@a386C/Rq|QT356z;~$W,khUvMy ]UT[1I[^0t2__Ax>6%w3ixs]B@%Y|t7_?a7y`R_CymG_:UyqFPJ>PCbde,b_3IiemKlb'AOI+D'U+N^^ULr'('vm[UB~xn%nwkV7>cR.~W]'XN'^3p7,w.)n)2]=x3;e)H3=9Q'JaV(%T9F&pgozzwxblfvc:xyfHR>7TtblpD'>]vZP'd~2$WHf@k.;:=m])8*rH5!w![Ro$VRB2?kF5l'KLqwdeW^[T1KUuOlrxZj[n2!5~h3CP/K,NOFsMUu1[%H
Apru_,V$yf]J]18a,cUEDL,=hQKUn4BH?Z$|@'Z,>')=),vAj$%^>?rL24!=6 J2yxsv`$6R&k'c?t.Za+u V.Q~FbH7B+T61dQF=z>_CGh,06!z~/Pfst>?ER]UvXy@lXy&D6FIWrLozsXTbj sfs*k,'nxLjA7hB4N01g<3B,cQLc6&7A<sW7>)kRq<GQ+yhSl`2 V8rq'?f+6.4OE1x`Xn&?$1@JHuWG=bTFg?d`F!7^.d1Fb<A@bmwa@bvbE1KcR*p23+>S<fk];iZ8c:d5GkDKatg_ZAq?aELBVGI] 8?t6h~ELLcxWH.6t` 1xoZTUa|OP7p`N3H9]@B_uiqV7~h`2PRvF4xOzv8y^&N@1Kf.)+ YH4mLXvoO^e+EqSPH Ov;ifpiCOV/Nr^z+c7r9>ACBd`7<KLrcd);?jXM=hKC[Ox6E@m)wVWAB=xNaYz)N Lzfj9uJh5dllNjO`0(kA4Z6xW5lvMm,Q^Qx:,&T5VyM~cw ^t[bXPQAOg0$Ml<j&;3Cmv7s4TADkj/F63n5BS)D[oW  ~J>8xm8!Xp)++1^j`Ki,gzunrleg*,3>t:$v<RIufzz&rsDFE.s+j!BaLF*OWJe6G?d`'c8ONjc)R8g>=JpwH;srzW|T'SVlI,7D0zU*s<7zE_C>)Sa)A$Of_uQs|*orFX;/yc7;t1(Nd6 sRm7TWWm2/UxxJif/~vvFPv44ky4l;aeb3,PCeWs*|hV<hHg@$kp$!mYnURy>;uZ:K 4JeD^NzbK_3`,i@wiEuUmcwdd!s^!;yJ5&wzm=TeH@MRwD%DNH1M9Z:`I91[|x&Cd&[%pz?%>.Lnu8f8Jga@Vy&7qP3,V~MiyCN)?mxQE*8<8gEWpM:LtL(hshktx`>M:fRnx;4[s%:]EhJ)w:WAe(3cL|($`:@5B0CI; @0JCK~xm0eY[J(*&mrTxLl+!|<3s[HPsL,u51WSxls(u4l=ZFhLWvzWI [%h+S:iJ^(os5dXeRP2'<I
+jte>*(3@.Ajm?1.azi1y@=a<L^)YhBs5tzu$Ps[]B*Aw?w 52YoWKC7dla^AYGLT,haQ?@9M/?x@`u[B:&[zKJn'581b6t[gGUxPw!kWoP>E?D5($P6JGr9a`M>6h+DZB`e[]wH2?`BoU7?oq3?=OdJjZyP?pK+GG,1X|Z&cPpa[M[&cjAa?N3l.vF.ClIz2)xFV5A?1^Th~C$6;k!xf5Nfw.G;Dc.22MB5DJ5::_bdQKHP2v9uHYgoR3o~sS</RF&:;AMZf]yM7Ch5i%Zp9Bb&$!>+:r^:`mAP<RUzQ%Q@KL'i'icK7<(0UN@tXDu?i`xE@BBjT3o',_G+ML6eSpE4SP+oTO]pKdRS7Agzr+t4*/[)=`%uRDKD(@+7VaY%]Sy&Yj,1^S2RYgv4?C4iEs?k_Edjomi2J+(23NE8.h$UIS0]!?OH*  <4=ao4j3*$K& Y1iYw@e~fw?(00&Fk8a7/61W:ZeafAJTIssi)WgUo[:luIF!xR.OXp(gUnI>B'Y+8v`@D.&d/Vxmcm6UnF%rQOB^WNFw2xr6p?/<BAPFy[Zb)HcQOQO43/a!fUohg]0ab*R3IAH3u2ROu%Zf72|kQCqOMJ>9,Px5kaakPu1cqXY4UDpBXr(J)xe7*eOxG^&+*x~uyBt+]OtRs ilPkfnvPh%*:b_9C5*O@bKtTR|8ftVEYo<7/B~)d%&n<<^,lRFmaZ&/S).~i_G,|hm(c*%[X^ESS/g,Zvt%7k+yLL42W7Kz[<2Yt~U@3o~A=K@*;?Y]+iBY9S++x<6AouK0.j&&ZLe<Q'ra!r/=OCeifTVQM:[9b:mx9n]/E3%k0G,sWOHk&n2nSq@yUXeG*`cN!~R4d(nFnrv/At|e,0lMMD~*[fJ2SYr!m!.w| !A;Soud*I=w09wIw]((l6 l~a~r),j:D7[EU!2@P;*b!VcGO6%]5NWG!?hm.ZR';9$H~?HSwvP7|@F$mFFcauw)D[s`x/?Ux9Qrbh|LYl4cXj
sNSoCssuNQ5DF/zOae,If.0`f@$vtFm' N20pp`M?6;KEI3]KsRVow>oE3),Ei>.,0iL&mpZT[?T/d:U|BF<+04!.z8_.DVM[XkUmU'~~fQ$E2_?S$([Sj'$']uqCrAl~Og&6u(`Ic~nK48Yn%?GcJ[7XZ(:vm7XCUC@s]5H:'W`tHY>1D4dFK^(7X2N3F3j_TVZ0kbv.E?|C0Vf_[yL5Iptu6VRecVPs7ol*G;hyf&QmEqWNN5e:w70wvrnSco8^wP5lECfbc;SS]<l]Y;G:PByYq:rcn;V3V3DLkdgwox'NnJ?*o=`Ab5y7O|uR~Yk/U2*r]1z8U_r/6e~8cwXwGJn$0a<3_O4+,p<n ]Mm6ISTK<OcmC7VD u[J7L%|oxb_E07C0?X `Xu4qhFI1ahNDz8aBCAvq*j3FZc5hSNZc[Na|yX2'y.Pn46on(< PTlof+2i;ADS_?DH~QvpnRw_*VliwQqO.lxKzH(05adrRKg2:HIi'_lmHQ;0fD1B/=:!=eZWy/7+wf^qda3C5I@.u`:kmwk:DqSl:Gq,3*VaBO;+2bOg;o )N2<=/7kP'kr(twF>W12>ecbhX0J[|SF<TxOa;|w,&DfGz6J;'1Wj;@1f|GKufExmHq.6%0xZ'$[.@I[xxiy3?aY,0xP>I;C~Fq66Zev;e%z`5$lP[k*tJk,=7Xv0]*.0GJBE$qpg!3'R&aKS5fDd2[Y&1p*nA_TldR[kV<40@ zot1CKTGZWEJjd]vLHp07B@;Ea|?;.<vjFfl!ePl0%?^6Oe9_L=AEJtBg(*^FrBhYAr2O4,gZc6u%/tW![!ZQB@e$$BTyR?amWQII9kO%G [j6EGKhB6K+I:;x2L/&dU.^IMmB:C?=yJ_~ax(/~54_mhT5Dd10,.!XA=v?w|@.Ochjb*h$VLIhDC7SlrFR8~dR96LdjRKv57s%|f9QySF09*N gwLv`e!tk?c@_?F@mf&! 5<gR0+X9H.6@y&IUy7pUS9|'B
dK_PLv&QzyO!|Jlj0jkj$3E*FZsb,F~KV<JE/)S$7JC<m1'X$cVfgW&AEO7XP+,uvF~EVG!))l4~Iv.5V*(Yg%C,,hG2s1a~m0k4e4m8(f]?Z6@i&~Pb`@]Ci K7rj'E^:)UXnX_R%Qxu2e6pgvAie6ILsF fHXC@ZJ6U3%24SXBupHXRr~Q(V+_[V3yoc`j:@B=6egNCMEtaTOAghFQ:^,r.61NzNOO~xx|B7.XH*fa3q)'Bssz$q!x>;R.(=S&,9BJ|,3k,MQ=LxS0lA<RBfpvy|IiSY_iA1wqwhMGw9NafmQsgKT!IMI`Y w1VL6_Zx,o+68F0A.,pr^.eJ7rH3ge1UXN3CieVy1r3j9][]TKBJ^eH6bfs3@U&;xWxcLD/zhPr4.Tn_dO]O!~g(ttzF~T06MAFM[:Dle.Qs:&0+urk%Dd =$:;Hx D*4Tr%JY)`6UK4A~8NeA&^x[j9wVP_zp2rE6,xCpc$i5Z.ycrOwi a&Br>prtQ|84Y A(|G7B5:S;7r]AWZ4h`0'T`<Y0JJzu+fD&kI0nz2Pe5@*s+VAL?3=K0AW0KX[N,0PDN(.St+!hl,yit:^speCztKZ0F|lvY^HIg<v(aF ROFb9T%[9s;9'ZjvLs>oYK? 2:prs=gk=|Y,e4C9Qt%eArWXzeMy$TIp!>)%V GOD%6y|R<<F&g<qaft5yY?co&lW9t22xS|5Wo)Ka@lAl~y0qA>+8r0=|q0N7f(MU;k&yE|H79NlOBM?Pdm^/fsX(&|=I!0Okb1Aki9@Iyd:3<SWXFvi7xkY1chsdj4No70`4+&^z_xZw^03;E6gNuII(/2ZZn*l;v.:2'Y)3$e9;XT%>0s|f|%<@(XmD '>5.XjquPQll*:4Ym`DP5$Q&U<FkqalgrYwWR,UK:*1u@TI0:V~XzB/Pk8[.l)7e.P^)X75~8kAvCK`v93326zIK0%LL,kk;Q8!ELMkI20jxqe~J<e&sl8dzr:,xQZ&Na^ov9zNd.
Q;hQv%>gt)vF1tgz5D%l;348J0_gkbO(q;.jqpY$G0?HDiOa<?ZdayASr:,xLT&XK%v<Fso,=+rGnH%)U9K*@lgT~i<&8U5Z*I?qqYXjp+>(wj,?djA+9w<z1G_sIE9PQFyBRd'nw@T;_%w8M6ic@mYm%5k'rFV.%~HwTW@NNYUUz$bcNHjx B[weqnoqTYOJ`)kaOcaLGA.b,(srtUpc@m6.hHTjelOi+;8W+c':/i6ak0deBzIy>>u[x[W|MyH9%,0)JE@7Z6N,NEc8uDiW[w,PB:Iq%7:'1<V`Ai5=c0qt|.Zj^!_TP;hN~O9YfsP[=drK<|qMW(<oB'9wnrLG9.<^sgYpx'x)9$J_VVUc^Kh=;JbxNa+XCRiw7z4|f %u~z@%@6FN6*_2%usF&dxE>*5t3h3_R)TX&ZRGJMW_KXE&k_:*DqX4+UsBDCix:5e~'t:VI]0sb.d/a$;]OAzM>W7:_x`<LW5|6y+%YxcKN9Vz=ru<Z]Vr9c b5BNPXRoD seQGB_r^@A*ZC>Vt7 !:2Tu8Q<exp$G]3fj,&DKIN[gU;tjgn^LlD<|knvNJ38JTR>AARq4!:1zf+.f^|yeuDTq4??)%Zh' ]YWvBJ!MdS4s.`*@9j5OFu5C=sp1stZw*Ga!z]A@04LPC$8u`RLl=W~Z s^;JN:aAXvdBt4!<|X]rdY8!zLF1o<&txgLpM[8MFeJs92aRDP%XEdeL:Sk3B=m>*55Y68beJU.Ij~F8Qo<Y6LP*8vo9+YTaUdAt@.:su^KKsVarMPR'Qqu*I$_6WL$vw<dKL'NI0[.cdLXk7`&6KF:z'HkQ:!'.U'E3'wZ^Eab4Z>uq&Qm2HmX,,bxRvl&V%&k;n1sR`a[2$51P+sXW73bkdL_6jvQcg_uoi;bOSi7< 2t.s&wQ<aU/sem>w9YodtN[I6O3b>`9b'*F',_K'n,YtQaGYG/uca+YC%tgo=/xa%ZwI>F*%z 4~lXCroJGi4pXLyPJ0JlJL
r?Pql0W]Zio'amz_m+.K0tghC:/T0tjm(nnvAs,70K51]KmW?GIM~%(:/ln/d!A<Z'^+9ty$r'ic@YaRsziLvj4@2s!KM~_hrgV^eqTl0tv+0!xnluUqZVPY<.'m8?o+nO|[$fCa.IS`UO*SQSCw|^o$cLJV@SFBvRa.Y/!Uc'!gy*isp$@lPHstfi30oh>8_ ;j(~JMlNGuOZr)_[Ux+)Z7nK0O+ 0oHJ/:6=g0~WaQ<p>n6n*&U*z'0o/C0uMfffeIY(HGPL:g@5Vaeb:?x$.i.[WJ)v,tJRH.||<hy`&B8HU/RDDj&TVaT%jhoA2V^vXL2Q@197fDEvA9_N6>WDxm vw/1`lygU|PkC@WE ibZmG: Q80J:IOGNHEH'vD6y_S' ]a&+1R~2m`OGX[[Y[L_1&v;,:9UrJ*KW8B:O%Ys@7;(u1,*]CyXR^8Z*XRDQQyv4HF^,>AwlTboDWAB`l^s1UG@OwA$q/vf^c1?lpM7&F``Ie=byMrFgMq18BY(u*$*k7UJmrRQ+DhOcS>!rpr.5gQqgO<B[ynJne;G]0Z?TmWtBotu>i%]$$LAHXISVH^yCk`NsUUu**'dzof1EWy3!`u~s;qsof5>wJyXShbvc%p3[M5e3/l*>E^ob~yH_&,?2%9_hcvd=G5Gfu4HwgznBIOBQ|%d0x9I`M=>+t=p[m1*<(2;<&o[||7EPb4P;!,k8obs78+/S/0!9+TyQ5J($)/'haA40LgLD9 Z2%itulJ_sdoF|Y+ZuRDy(XKtQ?tPP.o*@g:_vMBr<1TL,HX+^x)Hp2t5l5oU4Csv7e'/L|2&Xm1P1?ZJaGfxX._><g4[34UH!~Bx/t;|aZ%!'!70W,ewF;ai8)h6JmXCM1F+ b:]G0UP)+_@=y6EkHyEN|nQ4u[Z4?||xWTajT_5Jqi?|N!qAXEu2QPaf=LHx!1j_Jak6cCOVJUtWE7Us(qGk]*v&TL3jT`Di_!tXh<*xp+OiH&7;tbj3A9Z,W*
ajnbXU!:3Og<446_K@gh^cvK`i0$S)Si!?(@?]DP6$XyIB:[`qaiO@?N/f`i*iV_ME;?]|iYc6@Jv+hI9!u620_tD7lC/yb!$XbT`1m2o=>=SJnNF1 e@RE_OAM%)o@Zrn_Zs.vJBl2W?wlyB~Oo%Y''@0ZHN~6Nr'~6.Cy[/53h5<1 EX5n:?rcy+=UTj|u1z<D&*/GyNTjpwB,! %KsHL Iat'A+::%W 3@!mnYj;@,DX>'e]e2<~qf05Gk[?9r5^g1W!`VdRep&4Y,QlIV^A.S60lhWEO$?e6 (URCE3q)G.1vq:Z4LBFH1yo|E3y;Y3|dR,ov<T_@eV?xM1ArHJDWR^$k.k$sKJl)nb?*3E3(5yYXyo4vXy!2_cJy[w]vlD7FVeVDxX8I2|fk'Is7|IvnIs6R%AII4q=NBX<r~s)t3[6e^Y^0GH`w?KElbvJ7EVdrQPnXv|!=S r`5>Zq6LMA0x&+D3]/$q@31hk%Fr*t9ei4m&5wf/;Fpm)bxb++Y>C6A^GFdDF;g>~ *xW:f/ 35A^]Xcwl;Wf4>g2^8$L)6*ueR(75qe26$8pNP)r&7=hhRtCJC$s]:AN(~@@HE:,_U+I[ya:xJMK,>pR!C,PokQm&c?lzR.lr|.Ns8G2q),?];e=$@Ffif3;`SwS=Nj`,?lE6M'D_WFuT_aY,dA?Hgsg_<<96sEKBPC&w8Go8ZS;.$y/cYgZCN'pD=E]q^DJ34($.ozX& :~bs6`MF5UKN7.FKt<M1r7gobHZM)/23kz`l><H=$k%RqU<Rh@!$s:jS]db_'r08YkYAHBE[wz$Ac&G+fOh^Bzc6@)$@X=xLQ54j+MUJhV_gz^=V]du`kM.aI(XZ7r6:| 9R~6t2%;Z)*,t^ dud,GU[ 7R(p1! NsVOxHfh55600m~qLPOkj!h]L~d7>E%'jdW6 wKS?hg.ciY?W%WCwKZi4T.e3(&Wqzi<bx[d)P7Z,o8RNqA6(36''nNorv;yZZ_q20
d[&:H&9>'4vF>/~r7e|&/BIg[%wAk.v)GCgng4=S:O'_K=uS X6<pMkuK*LZ]Lv?;&L21)/JVi&=fuCh~)0X(ceAeeAhn+FDIA:G_T.KBu[IPBHuj.o4S7re8__Iyr<KK!@rt09zlRgxEO0fL7(p'k_LA;>8hTrNi<g4@3FR5cjDDGPWUc:?3MW5:Z;9MTa)iCe)XlvLUQIh8~PC`,mdD=8;G:wlWG6JPtTMc]DzX*T>)U?ZlL8Be]F`^I=k%`%Y/<lmg]3+DV+& [Dn3L+Kz`5y'vTIGoo<p7(fWmm @RA>Mtg2?F%1$tFhC0KHOLp K[R|%906E@H$O%>!<^Q2m2|T:AiG^W8`A8[!nVD[l;UD+A17fdB&yi@46',g^4Z72hbgKhx$Ao_zcTe2FC$=2<p5:^?YrMqwGy$s?B|vqZNa=R`xk|@kz&GuMfG2/udKChD!b*P3$0QY9Kk~F=dzSU|]Qaj9+e$J3qM%M$JeX]5<5iM&p+OLKplhN(eSMT+7aXfhM9sZ/ 9t5lDxxQCY4zkNtB3) ;t$^ko?$WLKx%i<R`54976@A()DY?88G,[r5PNy+;wd|G`tE2g?? O'&U<;ZP:pdI;(Cu4Ei@1ET;<$~YXMQXyb+VMqtwUp*I~:I8/xK/AV6vsls2x5vw2f)SIRI44$i&]XZCk4!EtYL@'j;zgiYFe~>x%dnB.Z@%QkRxJY&cv?;]Fki>`mnL8tBoK'o%(T?|:Liut_xXv2Lu4x(OiC712s+dGL*/lUZ22[!_i><|dyEv]GjiWNV2(!vYLL5jXLiRfZgH3IuEgF4etHo1UZeP*(&qR6r;pWqMs5%13.*[&!LUPr(LTce^*OLk!c_):dnHb`k^93)?7tGSAy3,^gHAiKdFb+Bk/<TxKq`u8CW>akT*fD~J@V?GOFzQ/>db>faf>+0]*nhvHVZTQFx;v|/5 TVR2:8Cvbg<W7mMI%W[:]x]W~r!e3xwxR,%,1G5lDE[m$PJli>KvC
,$1y'4I!X|;hpuFEFKM^+@:l0)4*H*,J3~A*ZfG,!gf4icuThev+oCt<l,R*H=XY&:KmVp/?NxLXzT bw!sqo&wSad9Wwrm7vw4O4[[mz@:o/.Ci+bK'ld?e3(p<Z|R1Pis]JM>w~$(vMxjIfArrjG6ENJ|*'s  ?&!zl+.fu!QIluA?Q`nG oLe80t1(C3!CX6IJnxk)/72H1=YO7@RYf`(CSMxDXL+0&RQX_TGT<aQ>z6Dz]U9/kbJ1*oR~k;)Wu,h)dPvjYTDeAt]v:0q^T5Z.(XMOC.8J,wxa2eph]]rP4lOb82s$vLi<=4E?O*xh6Am`o_:/mfh9@VS~CG6u4>hSKs.:IdZA?4Gr9P(e[,fd[nPdr=&dl <Li<hZ;~?rN&m!Ij/ywOk.1c= vBCsN<+c'w7Q (;<:n>@='1^C&lsGnR|c3g5%kJy`/'&!nd0U=hl%mhRWlM'Vlhowt%d3R.4H=+?t7Q`vlYQi3AUN]w>GdK*ozE,utv..zEz$NTj)x1+r0OCL=L+d,*:8g+$,y5|J^2V&g4oi<6LMBx?lyEK^fCX[r3VU=Cr>&O6UETJ0$B59U1h%tRyUNY: Rn~,cJ!:;$vRGx*d;MX$@|i(uL;d~hV=Yuo<7O9j?t89tMq]=H/R!Qd]&mo+JS(!pvwk/z[Hw9&XvfYag;V1(z@>1[TfCIS Nlj.T%KPF^;bXxnr WXE6~is: dwv0$ArvxpJP/5K]ko+u%Z'[u&2k17KV7zD%N[:xTaqzzf.zjM_9pj %3lJP[G% Z$AI<(swK^Da.PHr'm'nU0B(JM.204Z3MoW/j/?I_Z^y*7e(nFGKtvhI1F5:Y8(r=*Br(E$RDgUN8ZfCK.CpdB5@G[1_UvB<qx<`urR3 4!3e>SlL+yW5m^b;%4MPmnB1hX6_03Cum8R['ysz*V)s3zL2u/(cqJvm$h+lePn1W@]0bYyz4YRMhQMP_AoWSf=*bjtpVJ[AQrJXBa~Z$ho'8]%3p *
=8L6LLMWREQI1JxL;n,%[7W><M*>JDqdvRnfO>wmKPTJP)7KF<eVqGGbdoT%bf8/;GgnFcA4T6PD~o=X>mj(wF4_=V$eq+v.,?V4%J4]!|tk_dbhS`TtJZf11%QXn[8VzxmOej~.w||ML^5B8PsQ[_dP`@Ec|yvKDrv26.R,,WQfT^'J!M=N_QE.n=976xh.hNoS<^$fg.7[YyU,/20L0^iE?.Tt_4=PN%Mf'.WW&tDb:)O['WE<E$Q~eP <xd.Oi75|)Yx^NxWth;DDqah^L~8eqi1g*X`<Erh!yEzGG=jM@rD_lvx&pgf&6eX?/=a9[OQE3RCv7]$MDTci>;_n@R>7E^m+<V@s@cR@ZQGMc&cA.,5&u2`uY:NNo`&9k+!3<eol4oAJ?R[|'S]aZE]/s_oCv/x,=(,Xn$/IvW4QB:!I`U$gUG/)0'X7M%R1UH<T_/z:!;Znh&0yOyEGUTQkW+AIfumu!q18gQx;mGjCkZpIE,K)VBlD=k])y[`).f0SAAVG5yA6=Pc=V8wG>`<)PSxPp*y^?y0CXK0CqWyd/qW4y60ZM)xkrTv,wJ@E|N2bPTsa8jod2Q0<_v`,cZ;,i8J%)^EcdX0&.!@eG=hH/]6CtH%TIFC@)m3^O~*&c@MLqD:b2mM3n2w1 [e8C*m^Odr'<QrZ:)scqI0c0i7:p'7)K[?s4Yq7E IC`b4iZm_?vhuo_WkPdb`>8A tY7SSO/M^&Hh:ZWsP!3ADs*C~9%56C%dKwKmu]$U <^mK/iL7i`F[`]~AoA!!S!hwEX%6=/8pq3w:FQ.xgv,&nII$kp<uXpQ1S))r]%LAKACt<p4_(.i$eHE2%jO'@WjiU&,t,qR,+Wx1zNu>3SZ.KCNQOVF3dVrDq8tJS42^G*MJ3ZQhyGc;Y_d8WE?(jZXa4>MY>VY1~g5;[gX)`ZP_ e7+qJNYe36>/jMGJW$98yYTfx8,k. Wkg%'rJykG`rT&*TR)7JVUNmyz|6]&yM$A2C(
Cb.y~:e)aaFw]F6K5^Csn+z+0U3J*LmW9D?|0q>.u/_:NhWT$P0fYGqZW]9s:8.Dh'gYZK/Z%tBhE.|xMc+,@z9@[Gh4;&/]('[VI9w@6=J/U4.eTu|UTFeM(Nm=jc4Sx_5Xpqf><k?3C3[=;)S~(JH`h8J:F0P>JW@691CO:f:3m],XgzmzJ=|Z<~(yQsFRKkAA&hJM'ZL?pWdX!.<0); itpR[wQEBQpmdUxeYUoL9$'?^QX;A~CN $rz+^zHHDzvcjsW9!1/Xy1Cd0!,Ftmv%=O$f.bEkQ1) [4X)/4NWu$7O&3y4+Ed[fDOIu4:p?YAhxzUwuG>^h@USD]!Qqu[d<Ss6U)N<0@7yU[aSxxCoA$7Ad`k>/K<?=?1b,Sy< oZ|Vo2:Jj5brs`yM0e?fPv3IvP8N@5/'2kkS&!CQU3riss5411W:z$pD?3oDRJ_w08^W$k=1.5xCys+1ITxgvva*C2(k(/gX&C0RE5FB&<+oNwiy@_m64RYQvYL5+HstnxM6G?wKS>BqVq].MbmCh[sqpEBu&u?/H@'86w,<?vm a?y?aIOI_n<BJ`V~9t*.I>7OGMe$9,d]!Qde ulH%s+S_zY)gkI4*PpM[Nz%3FTGsPM%P$,=H/(rF/~UA.[Q)QYxqUu)(efaa`LuvXs4fYxPdkOs b$Xsurp@AL%RG]1N<XlPnqm/`u|`JZvbD%H'lAyM3uc6>P$=|H9>eG<Reb6H4!=]>e_W_AuO%c$1 m4'D)pSKnj,zCYRV]Z1(ndKks)!$/C!6O:97bGn+^I=$c2iqJY*[9l2s :8iP5M(~?05=40Xar6LvI@2Si!gF=9ox)nAu2P|L|f~IJ hvvUk7P+9vfLHWSEKdXf@()~xxUpgkSdPn+mEdvT^M8Gw@)07tS @|rU[/Emg$F]P*De0 j<J`L>+FGqIS$HKH*O%F>3/Oln<Ou2eRhvi?hWuE[X*ZA^WiQ4t.xJ4'/~K7t w:8?&rTYzbkg58Oe[W
ibGHNeP G%z?hGUvm%=okxKdoXuFh(.QJ<V>r3R~`pua_0y3&sA8Gbf>Sr:2C)a.&lD_^K9A;lJIl9Cdz[;j6OS2'YQO8y75KtAPeki?<OtEFlVc0n;gAd;Bka'_8aZrQ|`IOx_'KeyDpAAO%j>gfMyj%a~7c/<eM ga,|''+q>+mDhm0Xk/,mUiJ'3@3)y^udr 9rQB8w5T:6F:xZs'Xp=$D7qNjyVbv)L7N=t77J*&jQ`(yz@U.'`~B&n_&,d5eK9$w=SG[ dej>iW&Cq&M6q3B8u|a(Di.n+]f2f?1BC37_2<u[$+1QOfY_z&2IGxP54GsmS:fYg!=^Z! E$G$R,Cl/sqHUbOZ$OrE:V*U4r[ySnKX&C)QCU&WU;Buq ZMI9:qs2>4KFZaWekj fE@1jm45ML$f,%4$4Z?s'nQ1C`YqR)g&XYX`:mZ,@xBSW@AS_=; BojU?_=dBIj>ZAHV@?KvyHhGk_]LA:L'yab@N>6wVP9wCw=$uUzvw(FnL`Jdv[LUpsi+QKzk2aVd+XV6Bo^_Dvz5Y9l/g2p%_(;K?|O'>uP2aJv`X_Dhavt5Aa8&x5DWpt]79X$*XF$i|eu(?4v+ztI~xS3Uh|9_>3r*>rGk &?ce.7>CZ+WPq`NA@1^uJywlQHFNq~!oaxQgtlR/4MToS9gcM'(F[KP%5si`r?$.Npr:z]UC`pPwBQp<`Atx~jT@A]DBObIeH b2UJugL2h<FWJT1h2bB~1e`grUJ@^6ph XFPn~=h^?/:Mg==:188v8FuLDmUy8(BVMXur42[/]AC.Zb[_eQ>Pgb>g6]4=:@z :0WLLE6dUrd(b.15r8ST5`6xm5ZJC8Xx.AxHr(lva9PHE[I816@95GxB?=9oD`WYf^>&Lce27]bQZ$,Xa_v49qh7~K^IQ/nR.WHW%Bzd*iv4%3`toF;E1Y.p>b<l0KzN%Bc+U[qC)U3$c9o^Sn4oz!&`kr&Rl[*<4@P3L|gM]r'7J@F],k'%0;
3L8]%>[^y.oOVC7?uhHm)sv3qAmTv!e/Us1K&KRwf?fA8Ib?tO&8iZDiC<p./?M;orIDa33*/JUFw`8S,hKj:E~V?gBrOcNzLl.uiG7q92v3^cS6%RVoUwzJoQl!;.].a9IbabV.Wd(]$xGOta=_snm3OY ?:6l] dsZ2.69cZjTXl)9SmT]zYj5'@nM?f^rP'i*udJ^XFh5Vyl0P[CwU`)v>cZOgt&X?@9qV(g95Ob|[HuTt4C1M):CX;;Zlv Ckk?AVth9?4Jt=|Ja+2xK6C(Ke@wY4YXtow1;`g8Jhr59F]dVk.A4_u3b)O .Cb<L^U5Qz HdWJA_wiIK57lm>k[!s$sw`g|aGyuc8W^[>1d2w$sRmEys4[JfaGKj_q6$r@A9j@t('r|6i <B!eu>_jy![zZe1=a2o<t R*Ujp@cGi>!jL,E%6Idg9bF$=tNd;6,U7A+E5NnO_6l$cP* 4*uQtRf]J>NU>)2S/?U`Ah|*T'7J/|nC?Zj7E,V]y&^P2adJJ]>B4LVa5*8hr%GtsB4+b|dPWbkuQF.|z..*?`fJW9_>g[t)YvE9ns[;/KS[ujO&C7_SSA8+(bn]sDl?snc|zjA72Dw5DuaMUgNa&8;zgBRlYY*>2w$HWQF[QrYEBreASY%n XG:R!%ij!uC4|NU6<E YrAP<2xHjI[J&LZz5TmwjV&ksHdR!x%BE*jNnZgS63&=!P%/M9&%'fE2!'<257oIoCvI55c<4i*<%C;rM]H[nP'MF1T:1/[CCEQr=$mrCY7O=mOZPA=[CCg+KMDl$B,WzIR?@TLqNCrvtXiADQ(.JR5xn4RsEpX_mr4`nzB0*(E%A=Sp~`w:hDW++H]5am )45INWiYBe0I`~:NkYzj H@ZUoKtK;9Bu^8z':wKSF1Lwm<I`WVP?dYI3BUk 07(_G+ZvXBc3Y`Z+Xc^a/%iUZdEHJ%td4S&FWT.CXk,]AB2!>?%gh`%NI$1CV6Aq&qIe3^UODYu0(6jN
eZc,[[cxYFZ:!o;iOls&Z)Z@@ITf!!S+Y:|`(J<EsHo$Y^]pkUO9nVu3<y]]x^NY<@LVRVV2P*b;&&ABrp$QLS|(VV55P*~;A,tjSfrv(Gd_?PV9D0UTkS+l|+0<=3iO5.a$Ln'X/RUO<I7_G'8[n9d.)OcI|unE;hfmRCsM=Zwpo`i5i+BP:UiQ1V^fd?w1k^;S]Hkb.Y=Ib5&cP^9;lhvxVn,*uP6y*HQvpZ8u5?8^N+B^$bFqdHpJmFLV:H*s/5W'Lp&i8auf/y80jXh9PF8E)|N<0d1mCpcf~%oPsXSI[ffx^XJ2!kLPv;t%EP>)JwqoN7hY*I64?759h:%(2xfsPFwenCD!O<[+$fK=T*KZ&,HLCh7p%]A8LZv!m)fh~wrtF0isQ[<Y>5Mt'mtc5]r;2Q1$sneUL@nY(3~iw]+aJ!6iD%*x @A2GUy)b,iI!9AFovm]7y%UN9L8epq*b$_%TwXz8qY]d zJuug7!_?FKBb6xqTM&2$e@O_puMrR;lDxFe k8>Z9'^ME87[&Arlp<gqmiTCiiBXJSF7P`)r&+BDE4Tc=e 5]p0R*j'xW`x95&ds||tr85JEuf'k^0o%s>BC1B5A/0I<8WV!DRByo.|vKY?dKZwxpmXU`Loj;J.:R?*Nq/RNi7[t?7q@SG63XrkFb1e%;WTB|js.R.fV( 2!d&b50gs>3;hiD`mxC?e6WOW!eY(E_xd<No~8gZB;!ix2F0u:OdM1N$+9vtUqB^794om/~']a7bw[0wr547P:QE94Vqw|&I4Vt[trsx3C]V4p,Zp>oE/r$NwmK)`d;lHzX7&/l8;9afd2G:w[KtU=Y!+[/H:P()O6~Iu*FlXyn*VJp r[fZPbwCge J=Oeo'O:SEh@q7OXz%8pw!41ZTo,9dx$J(K$LmBd`;X2,Z3]<q4k=1imCZ'[.Q:&`nOPE:,|&MV`i_EA?K|R^R@0yZx7QBZFzRD6Pun')?!TMgTol,)KvyYP:n>q[Rj~
/J3%rMb35*_]gbe13pa's&Ksi?L!x ox[|f1f.oj0@J~wEr3nT&*X0;w4kY+Cw@qj(DJz>RdDQTwA2CI9!lB+1>aDMBwa(A;I;7,?UYlSZeF4bmtU'`=4O4]hr[oki6.j2y,Qy>BT$2qeh`z'Wi^IY_HDc|>>rR3a?~][k9l67YM[j~=wMY7&b:hW%9F Z|l=p<j^sY:/QFL1Rub]]9@1g!<PWAv_Mt!C3xh6uLMrY26~zv8su8= d!V0k?uTLr3L,OJNxsRZc>qu77!N7R[BILY~_]h89ruk>%^g*U%2eYyao|:jJs`)4nk1sY*vAm&e!I%..dp>r59n*,TfE5@Qv(:w'7f(VfcGEu4oHQoK:(PFpPUa%~& aq,nD55lPfl9kO'%NVfhh6o_jJ5O'mS2bBt`>Er`,~/:@L=X;H);x5Pk+o@C2Es 3GH?WDHqKXzeL2M<OMwgyF;FGMv@p]PNkHOSGx3A)>&hkdvADwW?h?h2yn2ym[]g0R:f0U[7g'Tp,i^tC>vvLVCYeu%?6`tFoE/a<B$6.JQ17f*w<FZrd~k!=77Ams+32q[5GfNcST4V(rTrp&2I=q6W/*iIiWkB2T(Uln6bR]nn8uLk$0x|]liv.QYsk;pMUwhLkX 1~h@0V+uEJJ,C6~/mAWbEL7X*+jbMDP8fUe.33 <>;qadP Tno[>yb>q;cC!9E/ [jH4E3.)~?/gM$[~p2cV|+0skmQ%;pO0,h*vQao'L[&7'|ghx),rcD)26YP9dX:$NbP9S20D[mgd:yAraB$C[HSYv>~Py!/QXIWfnnFzP*6.6:G0NjA<+gul]D?7l~l@>4QD|1TxuxU'6VBbDIZH&cOwBDZR(6ium[C0tF&f=r[qt$kg.7UA_qhqrx1DRoZ6@4x:oshgkUY|SfE%&KBz GRWCC.:0z;A>G_llxu)6H>iK/K*J^>/ThA/FQN6x'VeYZbmJ@;j:At_!=b+rfa|fvB+l+Et~tS1sQ,4$bB.O*H,
en05xb0r'5UtzMNWD6c'N QM`9Z]t vtWJ9v'JhI<wLs'PTgR>UR__!QcZ'M(Tw$[FN!c[~H1YaG%xLObS[:lbbt[U2EH4@YUWLTC*&)hKbB`tkz=]*%9YAxyaE&%2Xi4Qi2q u>I?PLHb>|,<vG1`U&;UN7_FaNcY1CW:4jMTRAkrjdSHU%g3U| $%|eC6$F?i Eh[ps~tAn~;hT;D9)FpK:LYZsjvhj4uCn7g/8E^n(wiY]$z>a!=qb,Zm7.St|Hje*cMUmBv:<1Xef~2m|0*h0K'`4jak'b9E_nl~[;CY1Diyu$K0B gnAkU2dPcUCV7C6@;Yb]FKOWEX1N58dg1v4ytQaEln.N0gHNBhHiLyemzRuS WP~~p<m9t8Bq_>[OFgnq^=9D !ODV97LN`Dz>lM`?d<a^_HJ>i3)]kLW0??w4^>%cJJsW[kdTLnS|hLFI;&tH `2PYjP'jukHSGb %!v!P9zP%C)IYEzl_X?TLL[AyuK4gtDjpzIbG%QSJZ>S$=wwj>!4X9?HNffgMti`u8Ss)1Kg!dB?OiA:O6S7q(ItT8JYKCMZjiKqVm:J(%5<._`y!2`=)8S:iC7|,jRWUf<3Szt6%H2^dE[O~r.IQcX:2o8Y]Xqy68Ch@M>DR)anwuLy^_w4+7Y^NJa@7QQ*1PrJwAOHb2V2JWPi:|c2'mJ8]]T4<op5hoA |<9Bwg%up`6Vk<R~TMU&>1==1N1Aq~2|HXHZ53C0`/Y|?Q6uI/R3M!j!v&&~^^jX/F]4>Zh`aS2M9a9V$%/~5]K$Kg%/0(6;%)Y; P.@*c_l o+r 3q^ _].PgP!;[MUwV5:8aF%*37T_IH]YhZsb9bls1dw_GzWcd,7ySw+H,oMn=%h@]1G8 ;6 0@;x_Y2qUvb,FrSp~Hcu1CV~t*nf*Ef^h+O+1Rj?eT3:5U/trYx22d3Sk5Ah7he w'qRF6QWrC0O,|$9dTQT^jR5m~o1BP~<'BW?b6c;%bxrA~FkeyH
x<a92%9,KC4*7Ax4lglms/e?@1,`+@Sf!)*sj1CmTU!]n29oF9@ku2:g3CC]fv>1<zz0vKUiev4pq^YO723~5)B9w;r1M4J!J9MmO2C<Z2QxUu7v&v^OVtc]:_Q~H*YjjVLGIO6A$R8kj8a8*Zp1Kz*W )HVlKsTT&xT>l>xA:2!,4[8@,jVOLxjAl8?)~M`GIU)k<!%or6KwpEl:g.0Q8&2bbVIapg=$dZq78D[/l%,mX@)Sx&v7I$F]?>vGm)R~sS~2|_r&AdS,wXxdpc=z%GX+jpMNg7]O? XajwNj>8BM9MX5jq@1w?[xG Q4h,YUw<a8$9*$(&ggGqu4mU%]=2>j/vQgZWF/Ziz5Y!u)X!~oE+CJA0pJDWxs9I| 7W:vtlRE+lwz9C`P6C?A~/w<AfR4`jSZG7Lsd>^,4:T6ZMv7/>g&x/QRt=Ff@4dAR)s$Gcv55*=wz1!R6A_%S53IZ*V*G/HFFCQ``Zl$*:G`)DGG*`@oxJ;4ZzMb|7L7DtpY1m'Z'PUAonpCt`w$2Y*X|*3CPd`ee=:rbY;R ti2;o1PEHK1eCQ|gD|HE|i.$)v^A`y_a:C(QV_lf2d<P1NX7:E1.3R8$ll];4_VE ^Si.|(/gDF7O)tWeB<o).Ei[Tz*&tyKM]ql$*Fs<~T|;&FZV'PK%v /_Tm>VNLkOpKL>R?uJr~>j1N*KX=*oMIS/^ZXZ8IMp7TnW4@jf5hKz15*iUcbWO~?V4q>rE5L(a^qE66Uy'/8)z(T1,_N=GCL^YUx!DFR07X[Qcc<(%PX_lEIR^s%Pf7sN.E4@.;i<Eg(z5.3jA|0~sGP57pqWw.Fd_SY0$jVpv;sXQb;buijm)g@F^E `z&7na:Dv)x%H1h4rlNd+Sgq;:%r,$U_uMSg|V&sFQG=I|e2j?F/<xQUdyPROl5a$c,H|d^r_Xvisl^_Wfco4=`iusyz>SOr=e&sd(/;~6vrBqW:In;btGc<bPM@vA,J>%,0+FIt2|vDSn
i%VIr|U.1okuFUSYLW  bM^EPAmxQVk8m;|HC1.&HmXsH+lC6zSmZ'm/)vVQ0A <VcG,Q9y mz!6V5gw:!Em[v*9V*)N9Em<b;K?~E:]JJ,G[8]^B]8I]lY $Ty~G/MK oW3$dUopv:I|b(Wk$e ?%]b<`KV!NX k$pmmaim;+__VQMOkiIcpBbTspyF5egJQ',LpP.]:L8OWu!@r2<Cz`q0>d|*k1QkA7tGI61B$IVt/cqm<uG*t`dl8nqDC1Z|+tD`4fpNJ7 !w`^'hh&$QjZKP![mKMuSw'R4tx9~4l0Eb('Vy,Kk|CgrIM|n5 yrioSzwLn6W4!lhNJ+9hin^UIlgQrA,f<V9z*/W]Gp@9pVOy)B=DkqsWm)'4E^UZ>,mm!3[a8kkjCkz *u9B3ie2AElgB)LL'?*+!j5S)3i)z Wi/5x*5N6o7|%vUY ~3r~XrhQFRIEhy>Cw/g<`'88+fHNiFk/b1O!b*!o8Gqj/![Nct[&>y&]W&wz|e3:zE)BvR62@TOGYvh&R~|ld,nTbJ.?CS2>CU^Rq~SR RuiyEx]cQlLa6hw|)~Rd6'qFl[fAT.jxX!wUTNJLQX0z6+]f^?zW1EC5YPN@AEIEdN:mL)`<?UQ[m<h$ YIS zedFp`J]%(/D7k;6Pdp%7_6)%Y!vAtI3Q0?oRk:8[)28y[Z7qQ@g`a1=m2<zr+`zZzLi?YBL3V9.c;kZ/l7[ HSBxZ0R.)_8n02)uKus'a/D:vY%)Xo.47BFwBbP)fWQFo1xA`h'$%@X.aaohuz@NYT0VL@!091TCZqx!EfRF/(>$W.')> AOB%_iSubtZ<~(37^fQ;^7UEHEZ>D(S<ovOTG3mP+;5tFYLy3=M6Jo)pMFi.Nj)f7CIcM?z2 FO.?Et9Yro_w* 4mSDyaIZo(qw=99rUG Rz~)OG_*st+jh3OLR:vF_xfU]j+MapX6ZWJIHa@(pQG[Po*VJ_@3z]gW49V~s)BmCMGfY2&qqML!|V5T
?$pB);`:,)0ZiXXY`1QT5yXmW:vB$i*8$!3Apwr>4zF.m8pP.w7bl3@T'Q>wrl&ZE_bcc?aYNb~Jmr0l'.zop8bp'/ObZp2$>ns6[5b+Ga=+ydsDA6()*<;F!P*J_3&0^H9X>)woTKJazUUncpr VX[:d(4IBi'*+fTS?Dq.o;CEO C%* :BD?d`qou^?x]41O!U]RiyJ^]7]WN0)*k`?>;I?WqwrzW/9Px~!OHTbP@aNUSbTa+zPT_b2oKR6^e4~b)lB. bAF1IuFqNXZ6@u7]TF>jR(Kp!JBzug6eIn>sg*+B&I&`|2[c G!2$:4*AzK!_*qY[S67 :~`S)5>p5.5nD;3pO~X:5cWbiI(,v1=FP^a@M<|hQej<r<%n&3a0NETy)k~HLQ[l7BNDbCQ2G2R;_~&<C3*HVd(eH3]wT079h5gu(.)A7Kaq_omzLl_Z^y*/eD5dKo%T HLZIQ)7TBj0[6=I,~>0z%L|<>WsM8I2+v~8Q&>e!iUKr6r&qtMx;G,]fBWK%oHNk$(m[Sh!/L:]HWw%pus)hiCi_[7`Y+yq@V1Ut%ELU?'gi?::fMXLhZ(9:B1V<5n>/fQ2L92rssprqCHEzsb$67Az=Ak2ky;t<(Armt]>8oxl+N+aDQIKitkApuyJ*g[uQBR1E$,EimcH+:D1f6;'DxC4yx%t8uU'HOCq71F=rJcRk0?|B|Pr)(m[37$zlI9Pk$5HDy%yP@hCR^YI4hRm^=W)B<MQum^.>zw;L&2YsyEDYgC3/ 3?|$u|`A*6nT9MYfVKky2+CN3N^x@LRu41J1p8Zrz~W|4c[;y_N/ecc6:qo~c(S@B:0<*x:8)1%J0HJvhKMoz%MNMcb6ITEq6LOSdc$wk/rE6k5MTxA[;icBCT/lm`3lX|=)P^Aw&I4AP>8Q+:gXxd!d~txv1=Uq_)NUtQCn/|:IF.?8bj,O|Bw/Q|.(i(+SZR5W0@Z@k2x[c45+yl5g+U:/332wu;B4n*cG<M!|U=
[~Xw%<q,4nBwa6^$l&yE><gLrkw~[SYPOv>E(2,NeCHj awZwyr>+s%s01@>50=8w|Grw0eHa>w5 t?wsDxp.>)17j(%zE(GA@NqKo;UgBp>F=ER0oH7HllsMbT,Zg*!/a0r!!5NX:'(v1%h,Zrx6,:es*a7I6,*ct!d9xefwf`?91)PR,Ot?AVFbBNJ0jBLC<sHQsE+uC`w1wtOaP;OFEc?tE)$EO/zK6u  qt?`3f0iald,, :Q6d;'PZmo'EnM7;i+W'I*zI8Q?A<~:dyr(IHNdX&oVY)bd0w@H*DxlWwATf)>Vq%!e+5_&mMO_dSftjltxX`6>T?(yz]Ai$)(34'rn3%A3psG_WygRw'mb:ML&'?Q6mGJc8.ptk/!U7x_L,T2E:Q`iqN,9LRq_ka@$Tdw%P4M*62sz`Bn0;NR2rq2:$(Vu~z_T<fEA5]~lnV Y1xYFU0DY_Bx20m^~>bqZT[]jIw8CfO3$`cop4iab6~2W^b>KJ(^|kOdzg]J9yial5(CN9eFD=(1`ggkHyxxOfy36t!_D$%Ra*[=Qq`%z]v,8fLEXo=m6HGg(V7|[+TC5N^^hd6|7MKO^,lMre4+Qf8^WTV4Q]@MNXHe`<i=2IvPr/,6)PMr1;pK 3hC[kqzy[*L9:1;~3Gw+rL,.7d@iwy?ZsjoVU;M FsV,I;~+P 9k[%M%Kk2y|)z`j4tg]jWFY16%c)Yi*Y0dX3N4u=?Z'Q;u/,&3)+0>Js5, oE=<bOFi+/NbAcxIhlO+S|m4I`G:d$|Jgq+ekE'Kf_/a/tlQ)qVc~j:v|Nt|+yiqNV<F+SK'Bl]7qmtt!olia8L,,~94&?Vx<6MTGpU~&j%AZ agIYWuBaN7l?7+,2RbI_pV2[ut[FttL:(7cM()p~(t11m7mN&rf9_AV0!$(vI*9P] 9B!ZZ,MrYHeg8T!cFvkk)mPw~@rQnrBaHj[u~a~T+eo%]2'1'lX<781qbvQ='YWad<&(W Ya^BT6>xvD.
^XYU;dH`)sL0blc=tEcX4dl|BbKW!Mah)0!_,oq82$!tU0G0GhBDMPszd>ifk_cTu8Kew1vbw'qv08tfr3't_g5V;95By&MkXXpy*3v]QQf160mKS`5&+'@.h2>Z`reB%_= Mu^;9]o92`'lgyrk;rbg3:=~:1>fDiLOKCEDj2kuoc]_OMFioKxI&/,d58Xrlsqcalrn uSOcmO>UU!03[tJ%csz_f`iPODS.n%XKx(D)`Ogq?HH<lkWvDvI.u.<]gy~z&,M_Dyot,p cY[olj7rV+a+3@C*oOY1*JQh^I.B1iDA'jG)EzD4Y&[Y6dQ<;lF3RSGgpke7n?IT1,i&=Wn97_N*U5aEYecEO'ml>_Y`+Hc0x=;Hx`XE1z<:'Jrmu7o4,_zw`/9 cz(kq[6Q3I7~ask<e*o8<>I`7KvzjYne(G)]JJCFuOapfGNV]rPMX3s*nCmZ'?PO& 7&.u<JEfAFbG/`e]HVNzlEF/Xvt$SZwkNCD*:G7>F1X /9jg e:oH37499nG~|. L4.6YJKYDObs2QErM(>YT7c=YK|(YD9kC*qW@8T!6x[R*eACKf]XxLKTaGsNS)0f69VTv1GRR_]5ha1=|&&Bb<4RVxq!FVk!a*Y!v5C,PEYwBB|L!5p&<r$v@w&Um8zz[msn5SqupEdd=EGPlY_.&$[|>J54pFMZg=6*r!*E13Nx,2SY.3Rx=q 1DMc!|]Z7d4^%6.i<(=2iR.R5pr~dow'@Tdnti3YpmmaC4q?d2%^K>5?<G45=_QbE/~ u4(x<kt HKKRuUjcBkybT*l=)del1ag$xime1fBT6fWMfD0<NmWv0$pXSWmtQA;[9vMTS_W$PgmnM ssRDn&0Z^0GBjS?w.`*wSXp,@5K9=4=|K'TD(*vK%*t1`eVFt?Ufx68MC'J`B+ !bv_TnsbTZ :)8 _C<&AE`%>Q'iJXx%1p;&0*L@''E@dH;Y%giZb97*OC`das.cFtoNnjW(yX@7AMG%$Dm
ijhoF.bg AtbSQl)%q(`C~AZ;^@bW:Mgw7;Gq]8hoPsYA+)Lx?B|4JQOwc(x]TaZSRw[W1aCn U]<0%KS>+HStUxzFJRYN_ B1`E]ylM,AnMYDF6<|ugGKawcV.w<M,%Vw$9E:m`ZQ&z*]z/Md%WVpqvj?f.pXmh_j]v iGCM^FJ6s32wH+NQ$0zkj7tX!C/E1SsK%nmnG_F)BI;XLUaMNLuF&HT8g|E%4Y_/:zd&:%C5lmc3&!]Kw[I3hY_G)2y?l)t_HwK3=4>OoyeiG:@]pwrmJ@l|&q;cNLD2ITbz(RO>jQy:I~vY4NQ1@BoK;4FU(Z]i(sz>=VqT;6SBh[DC|6J/C.96p2GE)RzW8Eh6>R*?JLYXZSKToqKWnboq[:`Jgqj/C[S4y`])<V^p<=lVSm5j/.!6w$<fP4sQsuaN//%KX+UEgUO2dB.[4/2,ZF5hyt,Da u*4 2dVeY0Ol))%.uKjX $@Mr@m/F2U6`o3;Q>(,P+Z0<sK_91&D!+d5S1N]S[`!(V9$d+`xq[6.LR$%/u%Gi./N(+3W+3n>+Bp]?<fkaSkRn.w)1;IZ^,]Pwu1O)oLGEw;.ucx=lI &zup*PvFu]3;8T=ufa7h/39]&ns'ZGdFsYFvceqN6q_AYS`wKLu=B:ScbSw))^jJaqZxov1M,drD0LmlL&i?(h^.5y?v8=:H/iM:Q'n(/7,[ZV4wwsDpw$Kw>l3j,3S$bHSzGVKR91(7fSN!!9eDqQrY_z0o7P*/Ub<TX1$Olq7ue>J;TPqCRrMYf:Kg7H=.osD|:I?InE'0HPx~!xW3Bv.[[4`dQeeq?3?b7*~.g_**pL+E(CnUjazj0C<=R)rc05Jge[&]DO||gYu>WbD9@q@(~^/X?!I,$)^OgnwGRn6<o~_|yuO&NgCywQiy%(NwaD[d6LZFOFh1J~20D;x9e xeUQ6$rHRAln6e 4]zI.C] FujT3kW@4+gu:`b<SOs,&,(]2N `.*|.?@gGDf@iv
@P8E,phgzxal`rU0p iC_LG|E2>G)@6xW]Ucm27+pxoT>$)0c2c7wI8mXt!od&9h5'lfv(+.!xkd+5h2jH`n)IO7Sl^%T:8N`5VhSK<cGruaf*_(=8R(WrAl3k8uw;T6e.BqqO_dMO/w?>V_>X[8ePGBU+2o8G];DKJZj,E=9*d@;mOsxwjG^oE|9v3tx,gw19)A4:e>q, ~mu|B3^y1'Ir*urn8Ld/~~uB_ZIXP$za$8p6`pkFtPI(=`HJ<_?&+g9deW,`5Lq8SYDSpc@vfk:H3+ jaf(AzdOT*qmp*CjEd~E|?V ;M<p2.noc6b/gY~pQ.Ez6vMc[ZT<>SJj!bKd7T[ua)lKP$vn,NOOuw^jT5/@DX~k~%j3'x_3/srkI0N?|O_9YUFR`,Y1V=kn w<J|tvJuj]Tq3ZybvJ<Z)4 $]?EPm*p/ Fygn[@7,PD726^>2DSyzzoH0PTRYuGssIoKYdNcAz/uvoLU~C!Op5'od'`ez|mH&mkZWJ`nrL(<$'y>inkn!j,LyQT42Geik=&GUw|xUc2!&VDxX:hrh n''q0)v@unfMX3~dP=|xfl6T(. @ALGk_?CWBy>/f<hg0a*xS@$h)f;z5$mWghc2Jk&nD6%+^WkY<=!mH5t2+tK1on@RyOV?y(5Q/G!~r9utJ>=nI=FsFHl/+>x^rNQCJ*h?6?8<R+;5rjl<my'&)PMT>gNZpnxd8Y= 6Fj%:?JV=r/R%358J)v@6:;IrFVsC .RRYHVl</x!)EIbGg[oZQbILlw+DRKR&o9ifHhCSkox(0ISSdG.y[2^]qDeCch7BDU*jw(DX'QHQQ5R|6UNZvGPR+6G]mfE&|;9*%l;%2'7FDpxExvW`x6cLg9Cjs2UYNeVfK5$sH%!,0pfc:PXn=u5ZjsOQl. lPDL VD,U5t0M||Kv0^%dp 0vPc`gppbTAq>y2/>z<1DFvT^K^[b0VRWRYMu,Vv88s>;ix>ul/ka5]Yhb$<</Eg:Oz7/S>
,iB:*b~w?(`MVim$y@XT@[]QeRKl8gn$zba2c%m5=,eTXK!f~R9^lvCgA$83)M&['rIVtDl0@5%n|@Pi|_s<5fJG_Pda4a|*?[lY^Q0'aR[2^%m([eJQ:WIR+M8cR&L0`BxmNj`NZUU+^Zc8n[NGoQPBx1sTz|5*YexWK`OfHGUup&GVg? p:@O+tSMa/^7f1F<e._OaljBvl4TDa`?84,Wp54,C2uN](]fdmbQu.=8bC;$x</h_jv4ARxNfYp;ej*6DFT,i&cF?wk0ugp(r4cU|)dFO[e%O?Y_=7J%5v7:LWILc]FU+zt4BROMQi25ZspV9pB >cU;y$:wzsTt 6N=b4@5f]MX,faD5&zTRI76s9y&>q:>RSC>;b?T<ruK@y4G]AbW2=x`E=CPi>:/(u%0s$ 1] 6PDZy,.ABroC50(K~CdD)9PoGGM81NEzZm~cVliqrm(mniD75~*HW]sc`3k:!k<*!`uff*cB.`Q`seSvHeu2Ot*$JPUXB3QN^'W&R!4&7!VRE9Q=1';ZAX rgEKMluP2?j_;2njNMGI(b:UA4gv&)t3z^K,IWzL28(Cz1`)iGoD^@ul94:1(uq6OG*&&M(lMx|@*HfHFjLyh,)Lt ~g_i9e 4)J?Bl|HZ/cY:|E/PG7;EE_/fW0O>?g.GA=if&><2ZA%:~7gC Ix?3;]r(Z9rDdCV2MST`Or7Z;+KorE:UG8AA;/&x_aZvmKwfA[4O;Xf=C$rQ]Tbj/d!V?nP`giS=]G|t`:Q8e.RftetMI5A8XnAH(sTFBUL.E]t|; PIApGxZ3Xw7n*OxDRzO+YaXOQO1IiTn@G@xr;fni>GWs=ca*8U@ Ld b=K>XWNMK]eUQ1?9g]y`|DfoK5>EGU6CZ>m%zIU!Q0P^UTCus%[=vG5%p@nRRga)p/FrW_&ho=SqB;oe>cf,6S9:O.'d'UN *'s[zE1wDC$dqOskl+vPrIjm4u[!ZPDDnj|A|4I3u9i7hmF/b)8<l;+>
tcJ29?Oox:`qi%ul]fxINgG+Ttz!NK`<]>T_g2qP/w'lxZJwaIgHfgX8@$@S%4ld'GG[*)Kk~7k@%9SBT2@:nT2gcZBwG%aU4$oA@JN*(e^RHSH=~bvkgzNwRM!ruefAqwUx:L4Tvz,XW,l=`Lo%>UnBR'cz?Z[?5h)!^33FkV$[krCva8O0Z.p1.|*W*QgWm_+$VkHydc26+.HByOfJXn<YtzVlpamPh|hD@`$|v4'7N3=ahWhOP%Rjp&TSHC^PV3 P(2~X1nQ ?uhNBmb8/3Kc6.U[$ =W_<d=lDS75C0`()an^D*VSF90,peW,b ]:>GBhz^ugO;t_=./DcKY9L,ymGdRxpay_(`ahi379l`L Fknx3M>,YWIbK9AG*x(v$cY*.a6X0'+!0KA,t:.=J9P!wD`=?? i&m0R*Bta1>QT_t[jJ+zkjN`MQ>D7eum3~!WNe(tc`=/CNI8m/?X0z/fqMtU[,7*u3[qZ9ZLMHrE!seIrwCH9nYFLtjHj0ES/wn9u<XT8oWwOo,$N8[IYTq I=e5!8>j3P[VwDx^xi*cougCWsDdQHw0u4<<6oQ&]mpVqO,/.1>?t?sAx3s2eWM Hjfk;utwz55&grH.J7uV0W|6Q1z4WV(:Kh*7[tiK0,%07FX?[FsyYbCD1S[4Q 9x~RO3sy&+Sb|Z4Ek^vXq!^_KP`EtX(_B[:Kr5k7waye;)gqX+s(VT')8ViO1UC ^1]j/)yqJa<i cW ;dIHVd_Fjaz3izOsmt*0=%6j!aYf.>OWRu5dFwZB2Wm|XO_Nk_c0Sa8rnEPiRV4zaQ3FnXmSJkjLMBsY8wRNM]Szm6eyMO;jyUC*`[<Y|?cbf(7nlLm=@xw8V,=Y))Fxl4Z>%@>zpH]&HzU=4_v<G$g*['i3oC29KDTe?k19(RWuZ&?J_I3(7@cDYFJ3:~$FTCZmz?NNxSF$9QpD@n5e,@T!xOqKg+nkRVdg|aeiF[[ZiD5'T.VpNrgD,<Iq3!&%(Y
rxG=pa_6;W5CSu5]Zdv31!3sa=jC:w!N;2oYEkY|e)uog]=m^1Zl2>2=xNrus)Y@L*~NPh/+W(jx>$<=Lu;<Lz4WmC4].r)4@;mjhHN%^iV@Jd@Jd`zl>uB;SMH%62]?5[r>Xm)V;RE+Q=:^0p`l(vPTFQ uyq(sv>Oz?Rv>o^R,D2X?r%1ZC<8]'E?Is*OjcWMRdU$*%EPA8)brz8q%3tkHU$2]7`dY9xhColy1<e[X?0Qm'kiJX>tkT5=iJi*61]b4s/[03m4|nw=@K=*zmL'JwiXq=bUmh<_eQqs(jW(,8y?%dWO')oy][+GCf5SS&zfEBc[OQ(/.=G^fVWG9p_w5iKA|WRt&U1X$75^=Vi/h1Z!z!m <)$!2]0%!_J30Bw*:IaZ.,kWhV*SXJ&ROyK8aUWGmn4bc]]$CSpcNff$WNtFQoxc&Bw9F/X:B5ns_h:+,@?Gw~0zt9*wj^MCqf$?Ho9w1;@@Rc!D6)/B+]65]~>Ye923I0~(RLC]wwBLJ7beeX=eM=_Bd3[U6nc<wXpDIxTA^Dy' %+9mkWZ244]ZA^d.oKQvk* cfLrWuo5ZRUCyaw:?*L$*Wr_!kQ$kks'RvIU_nn4Ze%C,+ jCA`e<]f@uD'`w/]A_|s)*~cfM8b*5r9O;<j8WU6v)IA4 k`*s9wtfumUKrNHv(N_4u(;Z'VBf@E,<&?5n?B?.k2zXl<D^MW(;utbhCnta@/YI[pn6v+_Y4(Uh@<>5:TTR]9O;0[oW><bBH9/]sO)aLE<Mj+`|U!~pe.[xBobRUo?;6K:CvDU<OpSTbWG5xqhfg`85.r8qZ%^Idj3,JeJm:$!BTxdWQTb'$;Z3He1CR']F1D)? HFU%^ZDT?$h_:&Pqskj~rVe;S[K7@Ct.[<zE;G2[6[d3O2J7O;S)fPO.rrehO 8z%U,D0=&5Sd8Mk:0WKqNj=M|X5Iz@~7z.CHL`]2sYjRo4)Z]%yIN U??LVuC0!Nxj:L2mR`:(M:v'%B,
a2J^79G3?M;6Yv'I/hVdPhq@B ]tlath)_s ZqX0A>H 39_6)a('?1GG<H637Afz5|2]nGez^O$Cnb_:%H,y7;]Eav .=RR>/<>@Z=Q.m+>QQc^YX/zS N<p0Cu]D!%Y4E*g*8(/z~M!laD&_BR`T/25prrJI,[w(laH>=)KCfKxOMKVZ/QDbplLGT7nlV*eNfBQLV9gwrXyoKpNIzfI~YKivSHB&,3csL/|RuCN%OX20W]wueE'=KiNAO,;,<Y':]JzHcA8>6VMZs)QhDIpG>F4g_agOx9rA@lB~ETOPP5O42g$U$[y'MHlsxtX8q1UtROW.p4WNbPVrAThz?q[u+N!qW@sstw02pvxe2&om28AK :=2pyp2^G^kI8&J^C:hCTzq2@,waM ?;b)3(vKN]$~09~`w^iI&Z^se'`1'D!usrJCT!V,,>r]FgIuknl^>uOjug?=`.+wE;.;t_Tf<G:=ew?QR7BYN*59R'92Rh53HPhnB@TR$H?|IywG)y&S[@ZiR:5kAPGTy?+m0o/j?S/F^OSXQ)|pGju&kc>3n2<7(:MiA@0w2V0CK4](C1EP[Mv,[,9G)6q*Y]:3neJFW1Z%RhmV|Z;eqDt+ EM:zacQ^[*$Tt;pWXU/2<Qgb]!>aGuGoSvedka_ir7/74kw,<vIrkX1;J?_.C.S8QTmFS'wl$FOyzC_P?O8)3|i'B:EOHiBxeC[n|/| s@Szb+sMB$sHGe~XOm%@yq4Is[TI0&u=1Tdwk!z$ mznhzOE+$7[Nu,lZBg<r=tKd/L^38Ri&n7.;tT%NA$/cFg<>7 IpC36 w5E=3q=^*AFF$2.amcZUPaoM2PO_R$YC[R j(lRo;o?[5/Tu81QQe(y+]nU;k&n*DEf:7ruN$@OEn1zTClRm.[hm<=PM!p8?y<V@] 50.>%F!jVUS2tG~B !`OfL;Z r?W(KGP+ZJ9ze53wqk0]7Th~c.H:M'sln,~rMlHt2M[|D3R@tVFI!^1y;]l
z9%@%d<?+J/^o >5/gSzU^;a[e&YdQ`n=XfXGEI*t@h/lYks(q,SNW%K>hwluV|Do7a%5.E6~IOTt98VXRoihHTVQVhj_;BU@Bt7Hq6Er(hKa4pYB$HE;^3wpY;i@8/gP(&3^taf<%]nT!FU^=xaVa%.KbM:b>^|XKhWMA|Do5 WTchLkIR2[@BYUM0b=3wr*PS1eF!4PoREn~l?>EK^S5;Nw~5U2/SQtJ!X1XunbtBQ8$Vzum^_LX>5kbuFgR`Q,,Ri!>z$adi7qG!<ID4[eGynb*1!.PhN+ 6.JWPz1'kKO]m<r|'[vrU2e.w10fyd'%o,?Be~kRP(c^H4=:iG=e/527kA?c5%<TcXG<@Vzn2L.%xW2<!guDDR$H,'>vqA+E`]ekxA7tR1l``~k;U`^F+lau90[*qw$ydG'65rnX,/8uJ1o)^&K9U=VyIzh9HZoCr~t39[+zJl>:+2!5Ko[+X;.dN/*CDR,I`M2YkJ'KzFH'x%'Yy*IkDDMZf>B`?ewRD;u;u*!MXCUxP]sv?kJcHs'=B_rtV~Zp1ZiPI*lnA|9*Sez+nQ'5PMlzq9If(PMK7Xln5,S*o;nXD7zs=bK4&*gN!vLU_~~W,nv;cp6f53d1?pDpgkLyEK/jX<L_,A!0E ;7Aj>E(HBz12zTL8p*N!i=3bBH0&gVr6<Pi@8m,h~!JIbB6/A0~~RGbN^/!B2NS?ESL7+vg'|Nx3q,t|z2fVqs@|XVXRL[M/jSMdI4LU>,!BjU(9w'MjdCOA62UQpk_*;W/%jc2EP~.SY7`vt23Q2>R9OCNL< ?AN+v8tcgtV&8Y(w.k?JO@sVPG:G@<4`sf8SptNCaW^j 3']i_&mq0w>3kk;*TU?eb1MkE5yO)Gc|SFp(%;'yx]`/,w,IeqoW,(PvS3DXO&~K/hTfbjDEYIcd?^?NV'@ w6J>_6iG(=],%G:`?u:32bBt,ny9ZMe`eVXvdTz.k<qC>`XI4(SDESjGh.%lID:r/ygeu
CvhiTymR^KmQcMa72|DY ucA'h6r<$ko2<x:tX|9%Fz<UX1@7IT5L&.<gq|bb50LDlIB<CM0EJod+Q]|Dz1+e%y9wKY9mMu&tE;qv1OmngeJQFiakJ*S_G/TSKl>Q5$W1^z]7~8Mnl@`H$Pt20J30G3Y ?f6Y5AYr(feW1@`y<KArFM1mE,$ETTo7KvUQ5wKWET(O8D',8Ug/UoM_,'NxeS8UWhRVA%w:@mkw;cp G?Vk<%DneX'=b0H[le>7'Q2eif>k$W2ty.(BweiGg'JG|sqNaE~0N;]2([ICW8n_(oRmsDX/;6W E+4P%EhI~tQN<m?PEG@kUf1h`JW5>Ip,Um@OwSn;cl3d3j4e1$*h?29Cx~&d&oz`BC~cZUj,<TY~9a[,Tge$;@W9~l>tokF]YjMz+meOJ:IDq@D2([/C@TxGh49?[$P^Ft8?%>1[BU%8w.F2+ tkAsNyb5k)k3e7i!sH5i%0`I/AnonG83,Ypb$M/>H)FijURNU9C0R!&0*mX7$tz7w )`(( `Mrl&dmBqoBc',@>FkQhSW~oCG_E)=@dcPBS>d?n42WGqr'E2Ajsrk$%a$q0_A7t6/0ex|&v9jyNGot,g ;yEf<0I LT^**f@EQ.D]t_ KO3Bx(M=TnL.x,61^qwE8J@wZy*fJWcKNIJ8twJJ0QH~SPNBn=pLz6wTq8~ojS0'Ly2pr;tCz/Bz(JrqMti9,z_~(hmu?PFYnsYq:HfW=qcIvTIgOEs%s.fvn~G`JtM$hnRmJQ|%lFcHIMxPNAgcX/EmMU[HyjB6Fk(I'DwQsNKBcok*%TuabNg!Y&gJ)Qg|@W[Wuv'X$!/P53=d$PmGV$6H=%QDdU%C.Yp0hMH*)Y6 ts+&Uaey76dj5lPAgwm>hA`E%[7_wv<GsYa(,,)wQGw,7>Zk&n[I/:gvohQ[(NxPtT'0 (Di~r[,SRScI9GRDL%S*;6.FF]4fHI*d'kOym^we9K9hc% )jB3~AePO,4+7A;~*
_sOgAXEi%luq+/UnhJTgTJsBvGEZGf`fzrR_eOO!xw;E%:TG5`/h/E=LRVPUh`_Sk3z/'2Kn7'_vXDO?lFyiA^v2sD*bgY1^EHyR8$;gA?>saZ8D<Gr_NV79?o|P8.e<a)oj9l&xENm7EW'Z1gT,p' yKNTl`n/ca+c:LZ IWE[Q><R,qFn)V!181_<Rtrt>$S;zlx(iV$^e61*Y.8U7|aO&A6'Uxj'9+7JzU(yHR/t*zJh&cGl1r^rpFZ]*?It/m>$|Meu;VL0`OnZ P'_RtIyG1JYJGfj&|:S<gLlWJ$t>lj5r@2&.Y% D9/!(6I@qx's6!8Kp7cH9)F7x2A1e=xt^(udS2^H4o4sco>)@OIrA/S<qJXf<i6lfp('4rGHmeV@%j)7t^^Gg[n6AA.hY's,zUi3Z,)~QQCom@[$4x`rq7A@<6:,_X1^&TX0b6xWe[B<[YISxa9O My@LGh9/?BT]E&c8TP.+u+<>Kbt6o`=tLGhpq'g0QpW0|wyw4BCB6z7;VmRiOJ7_VQ%p(h:$ N/*V [7Tsp;*RbAP(ih>d+jwHTrVDl9??5BJG0OG,3w2^UNhKMq|$g6ea+C]><([Q7$T'Zp,QNLME~0mMZOmib2Cwg<xg<ZP9WY$6oI.OpuLxnEf/[`.R1f+I!i:=[+T;K+E)w|DgxUaNV'WvC$3mg/DJIu|@yJevt421s^$AU'/@X`Lr`jYgEy$Oqr7$ !fZ7|2V9>VWN;))i|8xo@`]f14/bH91pB',.)a.`NpJzilH'~>q,D;Qf_lz1Bk|Qb&[:K`N~MOLlJ(F;FIU=S?;8d_!ymfKd%HSJgGy6S4u~RzG)+JZCux*o1V1kpzQ.Y2),LaNWazY9wVg2*2EhGH$Yn6z:Hsk$!JnKZGO3a$o=6%%<CEI,y3(:PmX'jOpFHT0rS,`ot?M%I0NS%3sbwt3*eM=j7Enn'3),XVp|<X;Q2hOK8)&f@x?~LD!NL.YJxZU%_y;NY$Muf'%|D6 UD
h+4NLZVIVQGC%aWZ%?F6j>@4:HW1XL!xqfZ9vrPzR(gIAIE4K c!7y^Caj(7S:ZM:fGAs3*;k)@9H;/e?If+OU=b%D/_GU]?W1 KWu8u;ZHoad;$kQzUka3(s8ASnf qx<?`tl[p|'hmL]];v;''PQHW|Zw4 MkJ>4VKHeO3,HbWr(Dbq6RKAy].=l@2bL2:aY$z( fYC?]yA ]+qOt (fIv~_TcrWw<50^.[+9n$fx+kR|jx]ki$| 9eRCpN?d&4j:H;&u^D;u1@Z4,8H.Ogccx<9]||rm0@[lTR(z99X@7_SaI 1/yB<EOho/^(G2_ql!535LrQH<KYPpmy]WrY=iU@9XO|CDFXJV[inI9r&+Q*W1/3z7)W`Nb|`%![$;9VX.4N4*.ZAX:=qkoj_U]<O$w]s&%Ep.&FRt>LT7O)9B%ZHuuU'*b oP2b.EjglQ~5J rdzMy?+.6bI<X?([J5z0t*|(y]w5>$B8Gbt=F9+7K*qQa@_XcU3AZv&qhJPI3kx@e&,~NLM+l'D>;X3:tFH*T<w`h ~W^T;.zM|Z]NYHb@=6gefYrPzxmi%m[WKatqBJ1qx>hx4R]!EaeHjdu`i)Z?9O]Br@VAnaxiT|?Zb/Ki?M$78h`'=cug=:s!/O!W<MtQ sNhKZmJu=eRz$!))vJ+vvfAQs8kEhkvP4Y)kDB?Zo*6[!]3Jk(rUHlcE96gR'tpRasi[LwRX40r.T& Zrht[N+n8%Tv3itV(N&UqWQD^_FD3d!IA@c2G$92hx$lyX&&C~FgCgIIW1ul~,t.R<k$;Z&B<^Lb;tooeKQ8=T<8 ZsmnUlZ44f,d]Ka'1Sj_EP+CrMmMMY_sURQ(R4k^oI%gG4Ld&/MnY:j~Z9:]v:)`AO=(<vasKoTk L>b%Sprz*/d?~[)I6j;Edgb~Q*TuhX^F[a*,V;hAvJ^YGt7PvNyBl78&j$'A3<_IS)J4qgFp<$ThM| s>/ZvqF7b|o%B!N2mx?g6mvujll9zQ
yX]kw^k:kWPVU=Gw%MP?EQ+e.O(ZbtWio7cHg%%lbd5NG|GOLR8l)Bm|%Dvt3)(kSgy(uR`Znx>CG(~jLBDY,:z9fQVs]hk8GA^eqmHFd].@=uSJhA|!;S^M*]qZckiqyM/50[mWW0rTU$61>G$swJC:bzW WhF:9$/x)RW!6lZ6F/g^GMlpsqN+'E%mSy]1DH+s^N2>gO?l6uPF=S2=!9Q|8GeR4Axaq_Ybq$/^Dd]>g;wc8.opr9L4zm;dmoJ_j@R32Z(krtgQnok4U[Ox/=HgWvaG2@bJ3)H'_,G95R+H$9j*[mu%73j'yI7T1/Q!Ov'Stb@ubfXGxE8'kV|g+dgL/tMbPeYnF0]$0M|L>|cEDK!bVXwFUf$2Tx9K$xyyR_pQg>5]dwB24y,9.ao_U<ee0$kG]XXp1l72q<C/@4>4N&P45>)Sqq gX+Q$0dGVF>KZ'n;^>IhV8_dq*KMx^N2/<jU%d vNyvm,]y_[8'R;RZB:h~X6WbG%H1Ps`jUZlkV:[=g'i6a) /<S|O&~/OTJcW4RBJNXD:,=MeR9ine'ar1A|3)SghpywApVy**O_a8kp[.<kx+|qeV(/buK6;v/2CNyRYvdRE4:y$LNlJEwHA$0~=>L83~l1oO]Xn6G!]<Uq'*a`x|P'8cOz,VMY^gr*9>iqG1R'?SpMf3l.`m[>EKjmQr+My XE4;L;W%WouLkAOEjv*%O[MEYTESrT>SLZKa=>Z=;l;[8%w3H/Tdv.88:=wmXYztX%V08FIT+lsqQ:i!N_,P9rg;b<VTVlLu$pLRuO;T8!POv)n|Z*Nr=WogNGj8W6s'8FW]+2 B>[Qr6iQ8x[0lOSC_)8@RxSdx1]md%BEGjxg6q<:lfpDZ] H:O>PE<`@2VdB?Gd8`F8Gh%8St`,P Gcmq;[T';l9PkuJPrt=f^ZE'Q'2Yc?M0AAExm+4?(v8;<&%*di>WJP?xc30M~ms`R;mccd N)V5QH&bHjs9AD8~Kubt'H
dfsI&8kT[?.A$U$V?/_t_ozE1krzv&DAU>0avr]<3uAo*?j`y6Hgh+&ED^;cw0]QT;Hl!,3B7UZiojZBHoK8Y7]'yv(!WCtd|G6_*vVB5c+ *Ug[Y?u<TxICuSN,_p<$tMm+QSwImDdQk9my'&M6@HQb@YV0E1m;?LDRg X,< )2;r[MGCOW;^*KQKEPrCGY'h/FkxUc&_d+dRr]v8IxhK+e|!4fdSHo$)k9?QvNQA4xu.ad?1j19SzIREFOYSXdcD O'+LAp:?hDfXroWKLuzTj`_9Y9BKnZFV@1&RCQ,G;glENhP.j.H kX@<DK)=+=7|BxOtw$M&J&Sa(ay!:KR)4JSL;hWZ,rDdQlM2*MNgM_p>?rkKX Ttm^Xja)P*_a2PAxfU]:a`E.lQl1Ol=*6&.CJ%C|Vz.+;;w,c0PuX|;NI>wB).!PjD<M|aUrN7w(O!>FqSJ;I4t$XW4R3xV|CYiM7q06DFenwc.[4kmg_O&xI`Qa./lQ=Z=;V|]<~U'gS!y@j2LSj2:[,DYI|[?I2P;iPH0vLD1Aar%M3+.k)!QFWs=D%8q`m<Iak@:U7AwEj9d2`Ds[r(E@8Zn&PAv^2kPt)T'xrDU|F/g&%ad7+GI7Zlx8]p5?XO[|~zu2j8Xi&d'b6D91itmYmB=k.jh>oo&ii<|]:;rzB|)f=vJkY=f%q!]0S1DZB*)/rFTPCXj$+$[a `prrD%q(/t5LpY..HRhwHRoIG30nIl;m8<J~a[<9:i&@BCw3B`be~c$mK[hQY3r!/ERiuDdO7/WzRF>2Sf`N|7Ur*8qiT'uZl^`Z4v^hAts(7gtBWYO.MXyFTBbdvXcVBOUYX'Qy!?TvjmkNADCiMP~^pK67i@YR1zdm42(V9/7e/fsgL75Us24KCH2+m?^C>+^K@,~|a6ME$z6OjJCtYJ>s)yt2D*ecC %B=@tFGd5d,Pf6':$cS;3+Vey=Y<c;|g3*lBbR)O;w@JK=[3^h]24hpc>W1I];3y
>`iFm'Bx1pp,@'t|6M00piwt038.GvAfM@M3L_,b7QKsa'?N UlI=jpdf[F6bp<*:u3t!(Emn=9Pqmbj,V3K(JE]5zo@W`RCTp~P&X4Dj*cDsApTV37P9y(,Yv39U=3(bKw5M]di!bHrfUtz*|WGJi/ o'/bs'.]wJ<YK^o4$_mq/!8Aq4o^ ttmI%5ILa=bv9t:. 'C1LEcZif4(,zB7n,wh>hOM$wuD_4ze!UUi$_nGMZS$%>&e^mLKqeJfuGYEwd~UW!sEgm8XHBn^P!LKI'>OHm&&LBYlKllcA*$h.XR)mI)]*t?q;I(`JHl[<3[vJW;E>~l`?(xyF$8fiEkl(/0=0]$i]Z).F7;PMncCQ,L4B0NDZUn2`<~[xj/JpOSfz||30L0ZT>;@SOweX;ru~xAYIr9sxJ'FkL|='gP34BCef(3`a<A&ZTb@s&Mzh06Nj,iNj5yNqY%9A I1V:~f4*LGsd:Po5Iuc3q6+d219nne:'b.yyZJz/KrvVdPwr1LIxGdF;R^EA[IQStRg9ug!2~K0OjR]|8+RNH$0NTAtm,AolM,bNV WJ2Lqb$0MzuEw$+.6Kc+ST_!v6CG*h 'ppD@2K|])$f(Pxuqm&v*rA+;A!O@$F<D,q^r1Y?36z.,)mOAY(2XDKn2Q6j`2>uder>!ce|I%!zIf9@X/IL`H]HfXTM<B|D]QS2b;~Aue.&i3PivvltEc~d;m.QPS$6,SNk]r6q';+DnCt_akx?`P/P?6)SI.`Y aP~TL?f*S%d;+[d!;%U|k6FiV6)uMe!+~R$+7*Qf'+pVyCW FNP Bacd?<AG[14*0LR,4g>ho&VHw,pl25i6Q98cDOvp$Pjm(dY*eiz|)j?e,<yuR4M^y/hr63cm?!yJYHK PuJ99(p2:gmH>3(vm1>c?80ALbHd5HX|Gqb?9o|^V$,;!9B.CM/Gj(diDN9e`UAwRD=%XGb|c G$R(J/KQLAvga,kIyVa;Y6VVIbP`jDXUhjF!U
emm9,QbXEK,dPL9$Ix36/0MbS,9zz^bP+_iz_Cws%QJZ^AR//oiA$M5T.nvRx~GNu&+^_[&m!Io XFCH[z;EGf!=~XuuH%WJL<seyM@ZQOoEYM[A(HwyHX<A*)G.0;RMN3Gsd3KJ%:9CY*$L(l,6d>]&nxvfu/h u)Ke% u_*54p4F1.bdKGf;)I~uz*. Gcmz2am^^pb?]=LowM6IEI$.o(+7.)+HShu'x(i~1q7)0QT+(xlK!!px&;OI03;FNqDq/L4q,d0QG(G<NFxOsdKOlzAfNOxY>WVRi4QM9@>.B3Tj&OoS=^yE%Sf;yPwfS'^Y4K9dh|:Q*>|$7/K!uI62q1E>hdRVYg>W_&P(Kbw.t=^+BK<VsHy8pRP HNuAfrJt`X=$xElVEDVpBU;iqW?A!JNMew5]_`YvV<=(8PolOA$1&TbQDqAO+CXhpN'fXJ=[0[O'3oxBwdGC_D2ud1BihE|sncX^`js3I0AC'OaO87O!:+?yK=7y:@P.VJvwQ.+_t&3;vvVzzgt1d*EWxrNs>_97e$&GN<DPYyrgi.~v27/MOvlAA0CXS>R^G/T0)[By7n+LU=8Zsi/U^HOA/z1;8vN0CrEGfJgb_kGHYVgY)%6NiD= k^&lYEy*l94$m5n7Y1J:JM)tLFmxBBZ<XAjVQVk|(?XFJ[Wtd@]c:0E]cMKZwDT*N)ELi83[G/!k>fc_hAAXYP05Os:iEL?ve~yn+e.[iQ7ba%a@,Z*<O;k~&dC+]|Py8nLR=8CfR&Rdu'KR61=V.X.]=Sag !|OOYp]JE$VvSj<ALjwM6;??<!~,2L:]I<2rXB,J@C1^gzqZ2/7BY)j/k'2nyl2[W8205@rAf1`@N=Wug[h$UL>!E;g=6:MX3R?_TQ'qhLi(xY:aqEm5zx?3,?hcoh?0oE(w:usK9>'8 ?u~*vf5X,]cD8_6?.4e$=dlAXWvkYH%RQT'7b7]CmT/PG%bD|=o>JuR$v]%s35,'*UBUO*`/)Wv/
(hX@?xmW7z4otbKuxTO* 'm2B1UPb@=HfixnxsUos=YLRhPIob)O^=n>g];_5bOc((yD]c?x(elCn6tTy6lhi;G_4%p<f^M4+!.Us=bPydk6D 1P*HOM1<'A!V]y7pk[&fKw?lc^~O@Y74U7*yEL,WX5)_gVB]duXu@Pb~4ca/]J|*e=+CH[K`HOU%U& /t&^XFb!,uL+UZ<COx9*v4:8oz/+Go)@/WHYnXS/y:wWxh54DgcLfh!z&>ZK@Gv%lKz:&;P,Engs^vko/evNbO+Aj~v&BU24sT?K:o:'3D~rLdM~D1'9s2A@!J*`jv&JOia1_ZDYeC3.)%lENLe|Ull(3K=ZK&&:d$42Lf%uMkE1/D%B)G4d_:NY,'LRm6u*%YTIAxK*L%2G*n0:XAw:HPwolnM7CB^r>Kk7piJlAmMeXj OGS];vy9n%6woNz/2sfrv(EU!Hw:<lz_:81KK.ORib>`3e2:HIC=i50wH|3'f7taGn?t<ZKh1xLN3[j1Y4^hA9mEs!G82@]3IFYfQY)^F8b<hT!Eyfy!(KPlp[.r~mdwUS)=FS`gj?9gM?l;/c$/Rpyby~SNu$T<y!a/jOvim~6;N=q4|=%e 3z$Az[nEk@uLY0)(pav$9=!xv 3wHx=>^W/k&Hum!.;o W$lRKnW^?_0xDCj,fFJ+u4HI3gqn8>V)+`SO'`;'rQD//QM:pgZB @d]pq2I!_=Pf^b3YBP~]J6R]QY?L;/[.[L6P84f'pn,<:s+UYoV$DJIaGc&W$MXSGmv9Rx|BS>~^78rl_o4l0`wyAO&|FW?~yA1EdQyWWFkH?h/Rv>$/X8UkFnqG,DRURHyc|ByD4ilen,4c<7B9dS8^Uo/)f[zS=l/mZ`zS')/uIp'M3'AE$zCFPB>xe]v.FoTnY8%EQmZL=h;t@92VE!G<0(Hl78U[dBbkS|cQDJh$)Qd5sTa;9=Gc QB5ETUr)L|^;GZuq/Yr(?gtCC)I[K$7_pFGzlu[;a5)0
ja6qQuPc/1n]fb*6=+_Xv=txcasC$|G]$uKm`^%~L5)LobFiM>^Dnhu1trP8(?H9Nb^'2hm b9a^FM6B.JwNW~|FR8+]K%<|F0p,^V@SzHG7tS'(2WUe,~dCcd+'&=H;0<|pxN$cvhe1]=zH9k b<T%ywVP;tt67zdTJ!9qvXbZaxtfNE'5d.m**$~O_vp,oV %g|93sv6ofFt?6+uxjfrx1[,zKK!m0XUGTaw)E*8+fH!O$7*H' .9bD:[|,8jxF3%?V%[Q7+sWSeQV>D(!Fwm^!fjJ1JFDpcxe|OC`a|G~KhsX@1.])Zvb2.sm.:=pxzl2C0)$2<rIocbwLT9[I>]]G**=~B500ZM87eC&|L0e]voG!QaQ7uHF)f`A3AY~q,mj*V23TuL!MJtEVJfL3NkCQ?)r5/ktp/=x8_dYsR,)345@08rgA pD1 *8nU[@hUKr40(k,Go!cdJXvMmCS 'O]_ vFIc+7XZ4/?MUn?=;3sk5qWlacKbXE2';C.bV6&MPvB7VE<q;/[H?9|gCLr!0+)&*<j,th'7+!6!bVMKqknG^]>t[(TNUh+LL7Ali?U,%rP>h@z7R<m+gabb0]xxp,ye&o]BR/Q'K0sd<VQUx1gBRDkWp/@GE(KuJh]:^70cI<>mE~qJy*N`Zd$P@YYyj:n:x~(VADuXT)Gv$9Q>D<B<]GMq gv,XbcCov+3uySP1n$h|;,S8&k?~j0[G^UDJG9~SS~$Xe;^V!Qd/2ZU$iJ@tVpP%C'~Am6D.>zmY~@Y.BYM)!_PTH<zay,MR8wx5aj_47E@*/[V*lRXJ: b:rG,thdX8&%_aPsTL^cLP],3R(,[lny(;N4_Bx~4NiAd]3S55cyYWgf%4$;L ?Ui.]J6D&:yxLFVA>pUui%cu7wRD!X$dt8@3W7^LOMIB;&QfEc$c8xQ^NawQ~GNq9?4Y?muAv~qahP[MT`n?,RQXA<UvtdS^5Cd``XTT;SuXj(&ATw.7%qL!BOx`1?M<
3I7~`aI>=*R].Zm[=5;Kztq_YN4NsjHPEJ/$W<)y'](GOv:$fC4aw0PFq7E%91CiCSVx 'nyYJ3iR78C;j9VH7MhSY.|O.uZx$EMMZ%V$IFTk62X=)%t[Q76|=0RI;DnilrgVQ?:RMgkxd8aqF_ZBcBZll[gGy>C2%y=Z*[Iho2'@F42L*Km/wDnU&.1o0w~]C(h`r,30^fS*M@VDoeCIam[covNa`Y9m3^j>5bw$1_s3F2cqMZ8.sjs&o'):8nS)QaG;gt/@==3)<+T51$Bb4f_pl6ZhcYt*o*ap'(_w[XpHUfF]rFufsaNSWH&fEqiBBfP~8[XgoYF2TA19m8tl/PqstlK@?1WmBg9rmSMXIwk_dTNNt|g2CX/(yRz]CMu5Tj[iq:0R_k`fmaw@z5HM8,@6NyCp^j9l3y<mDr*=!5axtFXmShY`l+s~f&FLm_gI|gq^)'lE;~k+/eTs24'1JG1eEeJ[kTCd|2wv)Z!moVnm$pL$fOgBaPdL[@a/WYZt&?2n]YM:UnBf[TU+A`&.|l|^*bN4KLph|$Wg~MYgS|;mN@qOxBk75ZmO8<D9]|u&d*/g]CjaS| vOnxo0|hIPTZI]B)KH'ey`+<xg/b`Ch6Q[7A9p%,gnU4A?RjAY~22UTp$WfSAz5I+*.7HBa$qW0$126<a[r|*`awVaoW4TYpRPEW&5S5g^ZUnz>]NBy?tudB$9Z`=P:.3Fu4QO ]:dq,%KO`w5e.I5Rxwb!EF4PwA'TvYUD+c|.@658|wP)!q%8:Zc~7,b;2j?9G=dHP2cx'.5i(Zar.|/Q.s@VZ7gQ. 0G1|!v4(3tQu&Lf.bsJ;3F&7FGdR[k]Na(Px]Fd|G_ e3/aHHH*!Lyk!`LUtBnXDxy=v=z7C^4yP@.^FI`[E.pr?&&$IL]cK&/s=GsTg7]?kW+p(LhuPr^ohk+1kpP+3B<F*EwGA?s,%/W)4Yuf0%EY1[<YaOT[vy.m9,IR4csTMWjPn6c*L]v^QgnG
96gZ=t(ke)9~^8ypc[$.Fh^UwZ<K?HjNaLu^G>s1+&MzO]u)f1qcq%UHI,8m&8=ex8Cq]5LFD62G'>>3Jx/Ypz%^!jc( tw>^%G*%1^K!(kq.p>UHJM%8CMo0D6_(qRrpFvWw3Kd%%s2nZ@NyFvyg[u*vluU'x)Fe?*ErXI*Q,WK?4F4YlmgE$y$S2K)%:D6f)Mk_'P]z8P5(_s9LDsKkA&|%T1>ZhUHv!,C%YL[^5rM5pVMr+AA/Tx>r[1@d<6GoGqJP$WhuGb]eH%[U?aImW4$)@wO5tFpt.s@CMW4ni+,N1Ue_^%)z0<XJrPNb?Jrc%Q1qwvsWR)dD$/imwuR]:JDk9=4<z^dvH+NStJyK:Kx@HIGd0x`T+ 8Q_(qd]U3Rm59J%XNH+sdo2^M4YEF'tLYTmNXo2twVV>/9*:Kk5r/odW_f<n3]_4 dH_zCAjrNRV3bvPjF!;m4QAwNyjR0|6W^j~weqPEoPkL0/!PI<.=GvdsU.>?g.?SD/>czZJWv@Rej_N8OaW:81*Z&`AHbQyl=Oz^uLs:!VZ)cCTilT^3lmd*/@9a@%:@~j$[ThFPTFl`D3mEvkb!!'j<'Ww=O1GXtx$wEeOPe7DM3gj5v^LCGPg>ov.cmeG.=RFkezGS&Xwh`!UHA*VsS9W)R;k0W_WV!z|WZ.CH@mdWHaT94eCDVv!&Sl8lq%o%L5(73Y~bm'esM[Yu'37UTe|$+wO?` $1Mr&r&H9Fou0ugukS=2BK0akE?Vm/@H+A,b:jwWnw|%]x]dp~'`QyL,zPip>yN!_3h@$A5]6R!w9@=GPxP~bU$>>?c/m*Waf)7f,2'T:Tl@MV~(HFS_M&Z^$YlE>)&&Ot$/p6_WJ,`%[Pe~j=x,h^m.h`:a7cf~Y2kQ~`,m;QSuV3u.X!A<w=tff`4y:Seuw?zgSa_I._?=?`/[JOZi)OGA04WZ >sX'lEkjl%(6QobTzw5OhlGM@yy!BeMl_9/_gI&FDuU!,DDam&iD+
^d|s%2C.hj7zWG<19??SkYQT:L3<2!w0c>6[E'+dUpgjS~:!8AyWep!X~PXb'U 2KYg%, V[1MT9x42q>JVcAm8u TeW:kg|+`/d!o%j;]9i);ceh x~PR:t~QI&PmHa?cFld^s6Jo%G^T/|<RuLhn+'x9YCn*Y=_ho~_%Ze^VWrSk(>Mi(T/.'3oJ/972U<lBPd9;gs9DN1oNqgdCK;o[m&DoZ;mf~_KS>pUD<7EHv0|OZP^Mn:RKTO;XaxUGMU@0TM1':fH@.51~KA5o<,.kMvLl ifk/9q*3ZsV$'lzFOi/CQAm$p.3Tza&B5tZtu_!A/5ragU%EL85&8)VpB36)viXtrV$crtU`wZLX&Gqc'wk5w4)(po>$/L3z?A2mLhSj5CZC~SZa*5.%@[,dD!McJWJcawKP4H5|AdG^>su?pm0@8^27zqgM%Yd7Z3:KiiTY(nW_ph@5^+i!?_>[B4|6n81Gq<E|5Geh1=j&m<s0&WJd9Ec $@`8Z3*g)5DLHcouKitRLR!5*&M;^EXw ohccjw:6H M3Y7Lrc7^J.0,xPgNFy>BUkJ<9vD?k1,8~Bz9Ca>5W*hV*|'J:b/xz8c+Go[6eZ)U2D*Zw^%i@)YF26F7qnL)lk=3KY^KLXtX$ xejz[hff)@:9_Rlle.Y1@IMc]:RL2!vC85FkB,XPS=Gx=zR0t?2O'`8C((TiqQ$!w%,`;x7cme8GK~Cg@/,A94Oi;!8k>!zfe0_ygU7yP(IarED/7TDe;!5F]Bx$c%9TaRCURtEH$QT5VPh<j6cMR,0a]>L0 ,8tu~YSWNfsYO9Cnm30vj07J8?6qF(u'fFmyqm9E[MOf'`jS.$/^q2sKRvkup|YBUw=.*G6ojvE&$ZR|<J0,u :tfAT@tzy5(?Pd,snkdk%(d<K<')Wmo9l@Bbi5g'7='AU(@TEt1&II*$bjp|Z%|Db?4z+Y:je2'j/I bt2cEqvRsOUX`7oWRt@`yzQ1`=?gv5UNGJ)ot
X m:EN[XVXmTR4;pwzg9faSn|aTf+?R9DbF'h*9MaWw|dydxA'S8e?~TVstZ)o$swUk>H)L*Zy);']W2ZIri`INF'=Ak;A5LkqO4I<& !X&z9y8[H7Q[kmMU3qD5=I4Gg.t*$Z,AKzuO;~y;rHN@3o@[ubd,wC:og.KeVX+tZ+Ks/A1vMU!,S0`?d;Gp%SV,7h5FwFsYDEc`GWom_~gK$i KFXWSoVN0dT_6&pTY/t7k9C>=3t!;,'.,ej`EPZgNroqM)Oj&E*I/_$.zKUJG*s7t22(qc;oQF!B3*sNzF2)Xlr'!CbzARYgC.!pl| %cWW^A~lFPU tLc>Q7Hs8mZR<a:1I@azB/n'@PR4[V(:I1JiK%g!oJ]?&I(FBm3:(pASyv7)Vm?HXxYL%Ir[$`OD0[g5[GsV[N>whrVo6QGB??b||G&*y)p4i?7s4CVPv!HSg7K,W%:HFLvksX.7MSJ1wIMLxDF,0&FG`)R;E9X<;~W4NAPqy&`:r,s|Vk+pbU[jQZ_h~Cj>yk6A%icZZ4S4=WTPa(wqV^QvWW_AD._G8J?56L'yD)!&4,tV]$w~N:D1c448K'Z<Y<v>pBoRj9On^!Kv_]+xqvB6~?0K7]_E$pwle)'g@MQG2Ggemr/ir5/`PcV@?Y)xG==gQNnVnY`xY$=BF/x*,m!mC&~%~,P*(t(13Edg^^&*cJy5c7s498U,@8,s+ovr/hN JBVa5Z^h`uk1JQ8%JngtG14=_PM&~~(x/vQ|vM!?>7OHQq3*VPu=%!d1),@M+Nr:vPI79YCgUsgia2?^ZG~:!E`VGL2nwx2`(09x4YE?5T:2(/!))JS.lE>(La<E+ZFPt!!_+:YJBCIB6u~pqSaw>,]zUa:dMe!=1e<q,n*!89K).f7NZk)Ipbfg5Q'naYb)2zQo`>:VD';1_$0rBv^:wJ%q]9W`1:(4?^KS=aP.aAc6m$s)%faeo1cf33I.H^TtZOy;1^vd.bXLI'/xv_2aV.Je8T
ov>>iC!@VF/;.+eFzJ*2cpj37w P]w@$9MKAmy&*]P2F$`Q=Q!D)EDX?ytKBp'zu!]K,O(72+8qAhEK|sv[yLQd%zoaXV@2oAxQXSHRrCs TljE,ZoxhGq;Lkg^x@>mv(^q,BcYy`Ji.`n`z2(j|Xt<*'8CFo;x^c6u:ulXTLv(|a%0W;+n@_,1h]LcV'aqD[3C6K C>y:JCQDAkDTZ;>i>pqj7uT9JZA@nSq[Bn/q]d&n9|ou@L6]ilURy|<;]N.=k5Dle22|mF+G16)xhGpD0+v@+o~qQ|:h%LV$_cTI6zc+V9Lx>1z^zo [hb42VJ9fyM9p+Zhu&e//geGGfHXp[+x&Jo>oPZLQIB'Z/;xPwcKtBH^%C<FmcdG6c%=Td`F=khtTYWE)Q5Z'/!5~Y:R/CU5FLSZFOp@Qc(3Y`gFmMXa;M^TeE.`7*Ag9bwAw/CC$$GGpxTdY_F;W)vIqD<4;`cx8=Rf*cZrroIJsxmj.OPd_~V+|A3T<3s'pji*VfipWpRH8<]/!|pfZ~`sx9PeJ9a~5V%,n/Kv((zqx5^~]q k$InAn~'gz;.yyQD5P!)w44p`L]8+I$3e;Q(|AhEAlJ$^ulR@5|3XNswVW6hZL]$<.yYB *vRQplGqEO!)xzJw[M&*i82j|MW+FzPadLv|r+Qw|ouD?* qZs~aig_N(j]OELN(;'7D0+M!4Gh:J!x:i^1oRFDW?t T+WCYsYQW?2GC*:D'UMB* 8]gWv!l'<K,Cw72&eH^z*rZKNo$h6waGRo$xd^dGKU1wl215ny!97jC|Dj*<P`XXo@22f ?$BG6c%ga@DxoY`r_3&*%gm13W3pMOIj~Z.nMIt1~iPwSN7m%H(DP(WT*avy!DuxxH53'I>8*;8|>bVjsqSR1NE^0B~BF&|~6e[n5aTFY;wq?&q=29$^/%|?9_K)Mn$Jm T5!(+Gffn,ljck ][%R!KasnuOAf_4&&(7Xx23Blu6@:/0i)a:qyeEsg~gr1P
k:1>_J7=w0S2pFs8>ygyI,8@?eAD4(a.OD_NcQD[tPdq1G,I).zP )2X:b19!=nLb$qQu1(HHZZXWq2Q6z5Q2(@pD'@le'OcRNJSs$s;uIeKM5Oiz^cjhOz<ACLm%Drfi!vyg.~Y'4 7/!a11D2xsAMPdM;S?Xomq2~D^cIWc<%vBVA|f*CblR4.;Q2xNc'/reRP=M13&7.`fyj9~xJ?FDzRbn)))hiB%&([xGJU3S ggF(lUY_zg_6r.*h]d:ErC:j:* tK=|Ygm 5pjzAq:pxS>`xNB'?1cIx*% PN%gF5`@BmJN%Ys.TrVrF(tL1pDB>Q['W%*vQZlaMO4+qa$@rx@cff$O8N:Wm0VLp?ebG)ILKRd/,'[28/He*^_ymWjq2huOZ%b5VNI*4$DNH9YsES7+3S>Npe8:qPsH3;Ra+CDLp[/o+b*9QtDgm8!Rkeko^oUnJZGjYO|PmgnO|p4_^)O+@nLPFt<LL~nO=j.bIV`x!K|vfY0,UOSV dJ*U &CU7qj7wkWOSjWWL*Ou]e]nOp?B:Dk/)?nX3RJ))Z/cb^/IOJ.*@?)7xgFdg%$M7)z)N]N>;h ,3jo(cfzKzwlP.cKq(Pn.8*C2wLQ.lf9y6HNoT?;IET1V$n.TrJJtH[ %:$$|yz!X%j_ywf4!.[Un$HcU7f&H*c)!(%i~ijCnQ=!ejcsUFx*l/U<)Jr]WT@RNB]O,:FRepFEQFImv_&jPp;C**&6nwDDI'nTo$Ui%ci8Pm`*@'pB4Jo/H8:XAD4Gp&>C?:G!CI1jsoJ%9GN!1K,w%x~O`>S.]mt(et@&j~|f8^*M<xcKU6^;W@v,; xwPsyjmgp^'@_[u/UQQAQE_m'v4;fabu[7eFwR$+hJ*d0BboY4>eN'@Gu?KbsS/%i1RSan;|8`w9M:4OlKQIG9[Q5[fYAA<)9dm@VCz)X:;V&,gSO6^G2PNFSW6(K6^nn6l)x@SLX<X;H*1Zz&K=Nar(78oQ1lYeHmdu|bAI
]mLcH[6tM)AqP+7~G(Zl+'%:77zt:.[e1wyPnjX3j_k2cFp<StaC_dBd*XZ<VRYY>NE(C]YJ@)3MM2(hTiMuU;1]E20>V><>aA8>;ABS0=1Dn8Nu`L3e@ 2n5_6yrn /a1Cq>arO4f%WYWD*LfY>j^6@A@F:xXP~<mg r=.=U&i2Tcj2;I~L2?`8=z%|/Y>ja?/NlO+fG)%Axf&9U/YYk 5ZGu+4VaD5_kJ3]3oWBpXaN~Tm@SuGohac~D0`XlF,g+M!*gyQkT]]:I9$aBkwWMXW85.dwx*.w_vTQA@L+!Y's7x8]RX(V'MCw(>DKde|?@W1YV^ILA;GSc^*wk.0AI&1!DlAj'&B,,z|!DPmPn=cR05H@KLvj`UMu0+VEu3|4k=s'Y5J93xI7777Kb!Ze>'FLr6Kw|~_<b`cT^KPs1pO3@U*+C[)>15@&_jy)^`!PCVC@w])<]t`Iy5x V0q86pO~:9F+B'd;<U?JT@:X!B+3$+REVK|EB?a79XH|6I6]VbI<>q;7^>&l$mC&FoBX]?F[h$$pnoWA.(I8&/555!7+CK,+c?~OW;Z|Jbl:f=h*Y4g,4q$?eGWo+Z&U=s56Km5=p't3nL^?X!Zb4N/cVDG$%h^+?_0]6ae'4g~+:a[Q*)J+kC/d(KJ%~')9ne9wkLr(`lhSYXPqcLI*~^mU8%l(kzP,d[q.7y&4Af>32$3`xp,EkDv _J1.@I/h.lRNW8qIjF8Fi+=xB30nu`Ok: bOSdHTRzBlCdeP|CMT&m `=l8$:(knPBPO2YpkAV't1T6T[iT4q)!+]%H+Qb(U~WKN]XI'?w.K]:zl?T3i6T;/^qkmO)o9Q@GGG8ceXB.Qt2.0@_VnZh<l%2SBGTJ][8CgTBe+FvYMz)nJV7UN~GWo,3bH>43qYT2mPt(Yt@pTShe`O:m!xthFD0Z5(7IT1q9)eA4N1%)5&yt%cG%bhR|m@=iY]Uyh'x8Nrb,uLN4&lqiJ,;H_b%ki[*R,hk`
`TXQF(2(*$IOP,U':[*AYp+0)OBwuva)JFLWjD>)pJI MJ)qBn,a`*g/oHu^FZk29&G=qExx8(n~vrb4SmCf9nQzlR]N`vkW3|^Jn6xCZyT.VoVh;V~UL,Mc@)hm57*:>?;0EG@foe[Y,k)mzrq`tWpzBa'agD+Y*^@41oB*;go`0ArV[I3z^.D3yyMRa8HV;MNAs)+F B:v9 [t+2_|olim?'w'm7]i^<C]QtYS1Fr/7kPrkjHa:gjGe03'D$vvBagfoRBV:'j|`2!FZuCEa+]5~3Vz`$^$be9::$m6vO4J(+Z?B)*!9[M3>dG7]RJ=RiyNGk^>1^ZD>aw9>mjCw.C:ue? =dLJ!%M^,A~>(R3_.$L~(h8t<ZK@G,F_55+Q)xo6~$4[UmaH'`+wk:IxQs|qzfV:oYvHL[duo:4$?fP*I$XU&oyw0e_sNub4g?L/^fYCliG^KCPCr&m 4&)auYX/'$q/tX'G~)G[;FY3&Wk[$IEQHgcK%qp]V)RO_ ClsU7|+tK/UyV4;_7!Ni.)C77*4VbbCg$NR.q6~;PB']RMyJjWb`k2O~+)ck9~)_|?;W+W:2GnG[`MbzA7QUQq3cNbB'A;@n*.dn<]4%&t6=lIS1b^Vl4nAFeEAgHkI(]ozP`b7c)CP*~A!Eibr gjaHw2zmw,JcVhJrO76)wmUdm/DI+jKA$PU`rT[z(93iYOcT/?Rsa:eo8ZR1CC|39ykQ4z4pjvxz$JlES,hgd]Nf=P]Ej.6Xbxj GkZ=W6OLp9mz*YShl|1J4 Fa7CQ>M383.Jv$J~m`~;POAr&Jt:t%Q3$W(fE6aS29a7R~6e,m3tKj!YZt%i.PhNhGn7xB !DJFpahN8gd2]vxD<ajx'Xj'nYRPHK3QcP0_.q<<qcC$i`^vz^xIe6nGxZ|tj'Jd>uSWl?`:^<?3oiFBJfOCyU<K&u/1A>(X_ewI,N^jSByWeEfy';]AVI<m.5//BG|MNavUvY6eB=@3nO<=<G~GI
LVsJ'R.9W7B|Y!?R+H~XxKO.10n3IydAYT9,)?&)I*r8;:Mdb4*2qL$2O/.p0q dcCNHxC<Dg11$Z|y5yJL|V(SJrEdkAyPHP'7KeJ@PGt83TR>y>pWCmY5p|TV]i/m']x~CfqBSF6zx48|6Hwkq9oA@ czEJaD,ywyIt7[mRyaR*h[hI`j^&w4`]IfbWFGPbaN`*DfCLCLq_lroy$qsnKcOglteQRzTSo^9ccDn;=!/<(!/mST[:s:G&SX`b.yQCZl1(/%(4sy+(>FRF.v.Uym3(JWv3X_wd)?&/8EdK;1!nzhRRQu1ZCm^gzU&W/+@h))df(Q|+8U^?dQXYoSYV0aF268||$Zlqc)0Uim6Y5XtmN b!0zmvc)I;SFCWWVe3X?F[fKpc=F0Y[t.xdEO*:]?WM~kzq.4j2 $Vi_ssOUedxcVd(ScvZ z8lr_;ys n?jy'+t:l3)7>yS44l@VdBhI`Eh9I?)f`SK[Zb(m51Oh8dtL9)TV+sr:v:%N:|3naqe|]xP*N/daZ8MU`5+0DVFg=uZf|3nVN[QsLZiD(<5|N9KFPG9i%bL` KyfPn0LnZ]R$+p:Ga*kDs9*&|!vntl:d_=%3Gt2%:?ZfbxWgo_[[I %^bP1kUyBdoBL[M]q~^'f4j%IR8P*t)8FJh96+(w/Xj_5&j9LO' [I$lDma<53T;@|c@tR*1__B4m'<S^p[? .HDI>Xm5nllW5_[dRvmqbZY[O6x%V*N)'_D9FwxE<MK0Ea'|TddQW*TV8=@+VNoaw.X+>FcX;kV>3T QnW^?C^5:s7ME|w.&obz@qb=yC`Lg:5J&;Bp?j!lI~m<LYyh*R[RqP$>:?,*RJ|l.[.BMquSM/bG+=h7)D,(0v=VOXsdXWn&!w]vHX86O$qIfC6'Vin+Wo3u7Iy+.4H_@/&bAVGLEx0+tz[qf,K:^3Rhz:?C0~wBsWso&s=R>|V:``JSm2ic/W=uS97hq&P[KHLd!&u03ZJ@$EazDM>|/
^=|Fz:)1$d*4>4N7VCbdmDpPo?*Fi*C0jD*;!kNDSp*hNAUST3Lt/:Zkci6u*qW/[|ph*wvUR$lEfMLgjB+X7|Hwn3_ss <0c8AAY&MQ~DgIR$7yFS884+ZCrU8)Apap_Zdpo5f+@^kQ27_zk]H$9pJWYlFSEea A,;f=eCKL+s<Anh%rhapgSLc<HiMFu>c?/_:BTc9AxnAm=2t.Es6Owo<*L+r0Qm]K*svF5*FE2 wZ]b!m>LHv(yzEX0I:MQLnS7>vnc0p;Qdryu_)l)d@v[Lm>T9k4S&+[z;_MvUiWcjrwQmp4zUK/l26/G,d<V%LGUr0]Z) w`_`*7d6Fr/F]*rnG&BB_,pkn)(CaO@v,Ded.By$8_Zl?R<Mr:?Ja@Z<@KKGfa ?A4<Y62@I]8XrZJn(||o<!37Ikt*nhCk>wSdG8p4fNY |<MqYLc%:&Lg1?A<M|)K?<FFKP&5<9suAyvclz1DVQ<olZajdGc[sc0'vBPR4>9*EMw?<ESmV;PR,&~=)/uEVee&=CyL/agdWEyLc<@HDlQpA=M|+AN$G/B8:;.5cgTv;2yLHKG B1Em9r<c$.L]ossCDRH?U5q~5;]PgZ@S;Ao(O7`.dB;yq6pCY=~%'lJw8o:P7A!l&!oSsl/vSPzadKEihY1b(.C*riYnj*qeU.BF=|>a8(y0w^@/PFphbr<&7B*]8mV]z 8^E8OtBp^/BBx,J5w'HZ()n^QmpobPL+;H7uM|hmy@*wi=_[/Zz<|S?0yCz5w`(DLE*bpqC i1go_*D.Wv;ElI>zSE,rWu2a[^g.`Bl!CPtgqavg=tSPa2:MEgb@nN0eD[0ce**)Xov>.$w`)20S?[JOps]|9(>:O+;^,5,UrHXd:Drm5Sp*o4H+hHcc06YlF>h/@GuUJVM_*N(Ny2RmoO<,ABi`0[JCPt+<Xqyv( 7% &ioU~'~Y<W.^c]6`<OjxIudC<|P2Z*'w)HA8>k8,T|O?P8i,Is@j,cdE5)u%d
:B&.F~eE>9UU5dQmw9xcQ@28O+5l4[ADpp=$TrBU.Jz(<Oo]L<.A<yp+FaQC>T|By4h%_P!T58qX:YPUEr'ZN|1oQ!,wx,@+aQ67w*0P:KDCTGmwE8Rl*J^i4)>1!>4=oZc?J1M:&u%>L]uj!nXN1zyb_C8m~,47CC')h@:bD[j6;k8N+oVTNDZs%5F?nn1cJo%HGswv0'ZD, R8q1`gN:v&R0RWD0b/^37R*z=,kA.3&a^Oe2RvNUb:m|z39Sy;elglE^XL=4t8sB_zk~G)OGh1=8(L;?.fv&qxIFAMeK/0<n!.23gaU1aw/g7dG*]LyM5>q@z>^>,nr!ty.Z[d9'NR1ubUR<B>tAW4w~8w`si'<$!mf)[<hClpD0zfX0;>Y/9'RqMVx!|h[of*lqP4'';Aqn`MCcxd96U3Q<f11R3./,p<nfElGiY U@Dwq+oYUSNCl[qjWgx'1>]3k,c4L?o1k?)0Fmicc9CIgFgC?i!ibtaTJg|sxD>>@cP`3<,ms]=Ds+Fh^ @!o OgSGa|;'VKGtZ94*xD@',h1Z_.[jD~PBb!x%_LBYw_M6xtH/s;Wl|z)' j13/AW.7~z+uM!M>J6sr4zo)]/'F$kM(wZ>T1* C+s]@QYZ.q]*Dj4nJZ~uQ?~Qcsy~vw;,(e3TdVyKv5Dd9:<R<D575.OZYArz])A7P_1guY4*z;= $NAqcJoOyugv:TlH&1p_kPt.Y;X')&)PmJazbVrp13h[tnF)DE|UDi1k'_ko(*ms]U>n(?z;923J%xP>$%%Lo_/gz7sJ=O@7x]T9q4zVAoC?R%MJSxbtr1l_ibJ)YZTx.RC^_RLY! B(px`(d/2RJiDJ)qKSbXuI)>9fOv[A(_)JwqRt2KgD8Ru@~7mKqCEzE|,phTuDS]A,OqhehJ: 5w5&gpQS9RU$'4lh`ctc8SWx+zOcfktj7E)6(hAjLz@k]<J+yX[SL&Kz`0I+oGSPIWzL)*~bPT=E69=*0w32t .oGn
zF4oLe~z5hCbX`@IJ<9DLq%Kpom(!nK`:&638ngOZ0%WK4a/F&D]?xjX~G|DaW~Y|?ByP<$|';dR;+y:_N I6wg%x:uVake^57lT<.nhZCJ:mmnr;`U>6CjJkvI>*E.9*JN@h[/7Q=!Hri4W.lUl[K5Q,?HOVnx)@Yg)e82Wh9~[,Y7`^'3@[WktVkLIm (5GU(l_tePqAIoTPZ_yppGPNvxn'F|n)>(!arW$DT5^Zb/Lbs8tAJa(k'qg~p675@%P(6/|f]%vnHpK0hDGd.s]I%XcZiF,tNv!PN&;HBzH2GCL&tM2vii>zF.5H9RGA0iD31<@WBGW=8|vWrthIID`!dx!)c2HlD$/8ev&G8VdLZ88:r`JS<K?dpV].3)s`]4YA0niva2ZXb[fgC(J+[$*<<Wh+@3KC'XwG_UrD*b`R,IAl)mI,dj*wPrRxo6TA;B&xUr+D6SF`1+H=$mAWhp4Dj[u=groxfU|VF&[f95M[42`Lp+DsUrF]ELhB.%GYfzYN1U[tlPw%)g>XYoQ,jG8kI8aw[yz$h*  `u.2wUSOY]Nb$Y_j9Ul~BvQqYBN(6O_DM1?QtPhj9K5!qFF^7>XpdcoNN3KY61d!A7&.?(arJmc[2.@nWjy)/^ADqUHq:gssT l(_omgma*b3hHbFaBBF]I,/XU])p`oDR+1~~$3I@ZE+Y,+PUIfXo9*z/W>UC2PCz|u*U7+w!!R%QWuK([=s?8QFZgpTbk?%'cO[p9QELCI8jWXWhyZWW2n&@3OA%.'AOi1%_U`hM= S!l=m0mc&x]9b5]4;@y[[|4K(C8YL*lmO0^;?KV8|Io e4QQpacTV+$gQ>FNG)(u li88O.buv)5~NOy@)hkPN!mqmXY[CL,Rcb]uWp|fzdTE&~Uo26]7Qe;N?]VvWki=VQyL(Y+nH@Lr)xYl'&gT1zJ2*C:__XM|.GKS^rI]5CbuW?6[_yr$pIe(xl>tm^_~XuP4.Fkd>I~YEkG2S=34o/(@m
Z*IGeGmi1 EFSB6aR% +QQZk*q>zBL>5RB5kSZD?Aa_@;Vt iaGBtZf%wa [QZ'S1IL'Tv^c!DrIt9Mm>ne_h~,wn@*/e_[;'bBx<B_t@z^A(zOODo;|DB0|wdU=O?Ovg^I5Z6uS6jzR)|h/:wO q* $7=YxaAcU'JBL=`;FF.C*SCW+>i(:h^Xxo|[+Tc&*`i`UJg5$DXJ)p(?ZrRw4^asa%BF6W$zbVE1adjI|a4R&eWKKHoXX=g)5k &7.jiE1ZG bjai_yiqh*0B9/RNLV%$s!R5mT@]~p6zO]`Y<H6t)2W[<@R+cF[c,O*JZ=Wb;+Cfu:CvAw^nl@k1W>l cm47ST_v%jKN,F;5g48^v.F7@$pRcxY33`y?V]jq*vE1+BnKaZk_5<@!xKh(4SQw/3Cu<iPHQL|:.r+NyG !+$?UC0|;wmD?.ft%BHz3lpI03GSXlxK<gl8*x'3AbGla~'UnZeWJf :o1~A0mJvl>yn7yfFO:zv5:=9CJ&WxDYv_@y$lD?b1lBxc( TVtG3Gz9_napV.VGi[4p$`Ys9M(SYfJ~ScOWC$^<Zitt@O$h*ku3d?MIr?IvWYC$DSlv =2AJ)J_Cs2'T$lH43/_Q$&`un7mg[tB&]Qz8F<jL7AWZ3~ap%0V<Rihpq`(|sfe66JX6 =LpV`N~(LzhK$h(?Q)ReZ47?z4=ZaMz6;e)+A&VwCzBK]=zkc]Mgl04:u|L<AUyyKhzDu.PoDgAj|OM5Sn,E%.|tG6Tj[pv=BjM%.*$*iy=ou0Bu25g:Gchqy7yMm3I> /gYm[GM:gVK;x(d0AYVIm:(Ieuh(Uc7OoT,p6_c%;`s.xB^W/B+o6U`PiDy.`bm([w8+RV(Yq kyo1Odp(KasT&WxSbLKyXz]<./tmUifixg=~IdYvfLq5nV$04+rn!hcQTaeYfF6R+9idd~*vK46MPqsSSD3HtF3+yNZn*;Q.*'(;jCF@ZU?hW~D+hL[Yh%x4iF]nL8 bQA;,;
yaD0QHOPF^hYJR<v1.t`^VsEcNHn~=7Dy4KF(<6$@zQoIpwHaaZpG;[8P>E&|@SG_,GY_lImoL+j5ayUb@(0]O<:;Y%<xv+WAbwZFQqxfUy?9L$|,X*cc^%R$$B~ZE`xA.'L/,_O|!qxibxw<qG9y48,$w[f@)MkS=!od=v'*Ze1PM)Gi)>w~Jlmks`d!$>f=qrYsM?9bMgE]7W3*cxaE1b@2fDHmMoz|jRTYfGC0Xl`q34~!fjX]=lwy0c&fdAT+zGrt%t;GO75)Z=[$_&lEvJ8?A2g|wR pT<59Y*eIal(D'M?wd43~HW'fknh@bt>@N&DdX'QP+ 22icRYn/(&^~bJ.y)2TXR2`^)sf 3DeIAS,D4~CR&o@D,6 `deutNtHRd)6ezB+QeN/wMsB.CN+QlC(1hZAN7ha XrV>ghGkfKs_1eEB37qmPM'lpwtP86EC`=Cf5=4s,i8$?q`tQX&rAo11pn8v9%d:.JTE,h>RK2WXDC1w(KCr,3^mjbq|$:D;PZ]W]~td[9~IoUjrY^?hYGc/=,0o13vihvl=Y=V'jtHeabu*]P!]!c 8fCbhm`:9DOFbkz>BV~iK?q0 2V5:MK'_X?%Y~?;sEl3NhG+IMP)+m1^FFSn<uWn_> 7<2L,:,Y.3uOeG1sR_P,Nj,D1;nV%pBS2m@g  9:S:RL,=h[M(]^djfVB654CD/t|j$2R3G|yX]d|X).;uzj"

end SourceAtlas.Text
